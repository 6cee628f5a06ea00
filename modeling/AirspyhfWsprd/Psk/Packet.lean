import AirspyhfWsprd.Library.CText
import AirspyhfWsprd.Library.Ipfix

/-!
The packet builder of `psk_reporter.c`. Set sizes are added up first; then the
buffer is zeroed and filled from the front through a store pointer, which jumps
over the padding of the receiver set. Here the buffer is shown to hold exactly
the header, the template sets, the receiver set and the sender set.
-/

namespace AirspyhfWsprd.Psk

open Library Library.Ipfix

/-- `struct psk_report` -/
structure PskReport where
  senderCall : CString
  frequencyHz : UInt32
  snr : Int8
  flowStart : Int
deriving DecidableEq

def receiverTemplate : List UInt8 :=
  [0x00, 0x03, 0x00, 0x24, 0x99, 0x92, 0x00, 0x03, 0x00, 0x01,
    0x80, 0x02, 0xff, 0xff, 0x00, 0x00, 0x76, 0x8f,
    0x80, 0x04, 0xff, 0xff, 0x00, 0x00, 0x76, 0x8f,
    0x80, 0x08, 0xff, 0xff, 0x00, 0x00, 0x76, 0x8f,
    0x00, 0x00]

def senderTemplate : List UInt8 :=
  [0x00, 0x02, 0x00, 0x34, 0x99, 0x93, 0x00, 0x06,
    0x80, 0x01, 0xff, 0xff, 0x00, 0x00, 0x76, 0x8f,
    0x80, 0x05, 0x00, 0x04, 0x00, 0x00, 0x76, 0x8f,
    0x80, 0x06, 0x00, 0x01, 0x00, 0x00, 0x76, 0x8f,
    0x80, 0x0a, 0xff, 0xff, 0x00, 0x00, 0x76, 0x8f,
    0x80, 0x0b, 0x00, 0x01, 0x00, 0x00, 0x76, 0x8f,
    0x00, 0x96, 0x00, 0x04]

/-- `(value + 3U) & ~3U`; no sum below comes near the range of `size_t`. -/
def alignFour (value : Nat) : Nat := (value + 3) / 4 * 4

def validTextLength (text : CString) (limit : Nat) : Bool :=
  text != [] && text.length ≤ limit

/-- The test that both `psk_reporter_build_packet` and `psk_reporter_enqueue`
make of a report. -/
def validReport (report : PskReport) : Bool :=
  validTextLength report.senderCall 12 && report.frequencyHz != 0 && 0 ≤ report.flowStart

/-- `*destination++ = length` and `memcpy` -/
def putString (c : Cursor) (text : CString) : Cursor :=
  (c.write [UInt8.ofNat text.length]).write text

/-- `(uint32_t)time` -/
def timeWord (time : Int) : UInt32 := UInt32.ofInt time

/-- `memset` and the header; the pointer is then set to `packet + 16`. -/
def putHeader (packet : List UInt8) (totalSize : Nat) (sequence observationId : UInt32)
    (exportTime : Int) : Cursor :=
  let packet := writeAt packet 0 (zeros totalSize)
  let packet := writeAt packet 0 [0x00, 0x0a]
  let packet := writeAt packet 2 (u16 totalSize)
  let packet := writeAt packet 4 (u32 (timeWord exportTime).toNat)
  let packet := writeAt packet 8 (u32 sequence.toNat)
  ⟨writeAt packet 12 (u32 observationId.toNat), 16⟩

def putTemplates (c : Cursor) (includeTemplates : Bool) : Cursor :=
  if includeTemplates then (c.write receiverTemplate).write senderTemplate else c

/-- The identifier and the length of a set. -/
def putSetHeader (c : Cursor) (id : List UInt8) (size : Nat) : Cursor :=
  (c.write id).write (u16 size)

/-- The body of the loop over the reports. -/
def putReport (c : Cursor) (report : PskReport) : Cursor :=
  let c := putString c report.senderCall
  let c := c.write (u32 report.frequencyHz.toNat)
  let c := c.write [report.snr.toUInt8]
  let c := putString c (bytes "FT8")
  let c := c.write [1]
  c.write (u32 (timeWord report.flowStart).toNat)

/-- The number of bytes a report adds to the sender set. -/
def reportSize (report : PskReport) : Nat :=
  1 + report.senderCall.length + 4 + 1 + 1 + 3 + 1 + 4

/-- The loop that adds up the sender set, unless a report is not valid. -/
def addReportSizes : Nat → List PskReport → Option Nat
  | size, [] => some size
  | size, report :: reports =>
      if !validReport report then none else addReportSizes (size + reportSize report) reports

/-- What a call returns and what it leaves in `packet` and `*packet_size`. -/
structure BuildResult where
  status : Int
  packet : List UInt8
  packetSize : Nat

/-- `psk_reporter_build_packet`, for arguments that are not null: the status, the packet and
the size it leaves. All sizes are computed and checked before the first byte is written, so
that a refused packet is left as it was. -/
def pskReporterBuildPacket (packet : List UInt8) (capacity : Nat)
    (receiverCall receiverGrid software : CString) (reports : List PskReport)
    (sequence observationId : UInt32) (exportTime : Int) (includeTemplates : Bool)
    (packetSize : Nat) : BuildResult :=
  if reports = [] || !validTextLength receiverCall 12 || !validTextLength receiverGrid 6 ||
      !validTextLength software 63 || exportTime < 0 then
    ⟨-1, packet, packetSize⟩
  else
    let receiverSize := alignFour (4 + 1 + receiverCall.length + 1 + receiverGrid.length +
      1 + software.length)
    match addReportSizes 4 reports with
    | none => ⟨-1, packet, packetSize⟩
    | some size =>
        let senderSize := alignFour size
        let totalSize := 16 + receiverSize + senderSize +
          if includeTemplates then receiverTemplate.length + senderTemplate.length else 0
        if totalSize > capacity || totalSize > 65535 then ⟨-1, packet, packetSize⟩
        else
          let c := putHeader packet totalSize sequence observationId exportTime
          let c := putTemplates c includeTemplates
          let c := putSetHeader c [0x99, 0x92] receiverSize
          let c := putString c receiverCall
          let c := putString c receiverGrid
          let c := putString c software
          let c : Cursor := ⟨c.buffer, totalSize - senderSize⟩
          let c := putSetHeader c [0x99, 0x93] senderSize
          let c := reports.foldl putReport c
          ⟨0, c.buffer, totalSize⟩

def enterpriseNumber : Option Nat := some 0x768f

def receiverFields : List FieldSpecifier :=
  [⟨2, variableLength, enterpriseNumber⟩, ⟨4, variableLength, enterpriseNumber⟩,
    ⟨8, variableLength, enterpriseNumber⟩]

def senderFields : List FieldSpecifier :=
  [⟨1, variableLength, enterpriseNumber⟩, ⟨5, 4, enterpriseNumber⟩, ⟨6, 1, enterpriseNumber⟩,
    ⟨10, variableLength, enterpriseNumber⟩, ⟨11, 1, enterpriseNumber⟩, ⟨0x96, 4, none⟩]

/-- The octets of a report's fields. -/
def senderRecord (report : PskReport) : Record :=
  [report.senderCall, u32 report.frequencyHz.toNat, [report.snr.toUInt8],
    bytes "FT8", [1], u32 (timeWord report.flowStart).toNat]

/-- The zero bytes behind a set body that fill the set up to a multiple of four. -/
def paddingSize (body : List UInt8) : Nat := alignFour (4 + body.length) - (4 + body.length)

def paddedSet (id : Nat) (body : List UInt8) : List UInt8 :=
  encodeSet id (body ++ zeros (paddingSize body))

def templateSets (includeTemplates : Bool) : List UInt8 :=
  if includeTemplates then receiverTemplate ++ senderTemplate else []

def receiverBody (receiverCall receiverGrid software : CString) : List UInt8 :=
  encodeRecord receiverFields [receiverCall, receiverGrid, software]

def senderBody (reports : List PskReport) : List UInt8 :=
  (reports.map senderRecord).flatMap (encodeRecord senderFields)

/-- The sets of a packet, behind its header. -/
def packetSets (receiverCall receiverGrid software : CString) (reports : List PskReport)
    (includeTemplates : Bool) : List UInt8 :=
  templateSets includeTemplates ++
    (paddedSet 0x9992 (receiverBody receiverCall receiverGrid software) ++
      paddedSet 0x9993 (senderBody reports))

theorem alignFour_bounds (value : Nat) :
    value ≤ alignFour value ∧ alignFour value ≤ value + 3 ∧ alignFour value % 4 = 0 := by
  unfold alignFour
  omega

theorem paddedSet_length (id : Nat) (body : List UInt8) :
    (paddedSet id body).length = alignFour (4 + body.length) := by
  have hbounds := alignFour_bounds (4 + body.length)
  simp only [paddedSet, encodeSet_length, List.length_append, zeros_length, paddingSize]
  omega

theorem paddedSet_eq {id size : Nat} {body : List UInt8}
    (hsize : size = body.length + 4 + paddingSize body) :
    paddedSet id body = u16 id ++ u16 size ++ body ++ zeros (paddingSize body) := by
  have hlength : (body ++ zeros (paddingSize body)).length + 4 = size := by
    rw [List.length_append, zeros_length]
    omega
  simp only [paddedSet, encodeSet, hlength, List.append_assoc]

theorem receiverBody_length (receiverCall receiverGrid software : CString) :
    4 + (receiverBody receiverCall receiverGrid software).length =
      4 + 1 + receiverCall.length + 1 + receiverGrid.length + 1 + software.length := by
  simp only [receiverBody, encodeRecord, receiverFields, encodeField, List.zipWith_cons_cons,
    List.zipWith_nil_right, List.flatten_cons, List.flatten_nil, List.length_append,
    List.length_cons, List.length_nil, if_true]
  omega

theorem senderRecord_length (report : PskReport) :
    (encodeRecord senderFields (senderRecord report)).length = reportSize report := by
  simp [encodeRecord, senderFields, senderRecord, encodeField, reportSize, variableLength, bytes]
  omega

theorem senderBody_length (reports : List PskReport) :
    (senderBody reports).length = (reports.map reportSize).sum := by
  simp only [senderBody, List.length_flatMap, List.map_map, Function.comp_def,
    senderRecord_length]

theorem addReportSizes_eq (size : Nat) (reports : List PskReport) :
    addReportSizes size reports =
      if reports.all validReport then some (size + (reports.map reportSize).sum) else none := by
  induction reports generalizing size with
  | nil => rfl
  | cons report reports ih =>
      cases hvalid : validReport report with
      | false => simp [addReportSizes, hvalid]
      | true =>
          simp only [addReportSizes, hvalid, Bool.not_true, Bool.false_eq_true, if_false, ih,
            List.all_cons, Bool.true_and, List.map_cons, List.sum_cons, Nat.add_assoc]

theorem putString_stores (text : CString) :
    Stores (putString · text) (UInt8.ofNat text.length :: text) :=
  (stores_write _).andThen (stores_write _)

/-- The stores of one report are its data record: the length and the bytes of each text, and
the numbers in network order. -/
theorem putReport_stores (report : PskReport) :
    Stores (putReport · report) (encodeRecord senderFields (senderRecord report)) := by
  have hdata : encodeRecord senderFields (senderRecord report) =
      (UInt8.ofNat report.senderCall.length :: report.senderCall) ++
        (u32 report.frequencyHz.toNat ++ ([report.snr.toUInt8] ++
          ((UInt8.ofNat 3 :: bytes "FT8") ++
            ([1] ++ u32 (timeWord report.flowStart).toNat)))) := by
    simp [encodeRecord, senderFields, senderRecord, encodeField, variableLength, bytes]
  rw [hdata]
  exact (putString_stores report.senderCall).andThen <|
    (stores_write (u32 report.frequencyHz.toNat)).andThen <|
    (stores_write [report.snr.toUInt8]).andThen <|
    (putString_stores (bytes "FT8")).andThen <|
    (stores_write [1]).andThen (stores_write (u32 (timeWord report.flowStart).toNat))

theorem putTemplates_stores (includeTemplates : Bool) :
    Stores (putTemplates · includeTemplates) (templateSets includeTemplates) := by
  cases includeTemplates with
  | false => exact stores_nothing
  | true => exact (stores_write _).andThen (stores_write _)

/-- The header is stored over the zeroed packet, and what follows it up to the packet's size is
zero still. -/
theorem putHeader_filledTo (packet : List UInt8) {totalSize : Nat}
    (sequence observationId : UInt32) (exportTime : Int) (htotal : 16 ≤ totalSize) :
    (putHeader packet totalSize sequence observationId exportTime).FilledTo
      (encodeHeader totalSize (timeWord exportTime).toNat sequence.toNat observationId.toNat)
      (totalSize - 16) (packet.drop totalSize) := by
  have hchain : putHeader packet totalSize sequence observationId exportTime =
      (((((Cursor.mk (writeAt packet 0 (zeros totalSize)) 0).write (u16 10)).write
        (u16 totalSize)).write (u32 (timeWord exportTime).toNat)).write
          (u32 sequence.toNat)).write (u32 observationId.toNat) := rfl
  have hdata := ((((stores_write (u16 10)).andThen (stores_write (u16 totalSize))).andThen
    (stores_write (u32 (timeWord exportTime).toNat))).andThen
      (stores_write (u32 sequence.toNat))).andThen (stores_write (u32 observationId.toNat))
  rw [hchain]
  exact hdata (filledTo_start packet totalSize) htotal

theorem putSetHeader_stores (id : List UInt8) (size : Nat) :
    Stores (putSetHeader · id size) (id ++ u16 size) :=
  (stores_write _).andThen (stores_write _)

theorem putReceiverSet_stores (receiverCall receiverGrid software : CString) (size : Nat) :
    Stores (fun c => putString (putString (putString (putSetHeader c [0x99, 0x92] size)
        receiverCall) receiverGrid) software)
      ((u16 0x9992 ++ u16 size) ++ receiverBody receiverCall receiverGrid software) := by
  have hbody : receiverBody receiverCall receiverGrid software =
      (UInt8.ofNat receiverCall.length :: receiverCall) ++
        ((UInt8.ofNat receiverGrid.length :: receiverGrid) ++
          (UInt8.ofNat software.length :: software)) := by
    simp [receiverBody, encodeRecord, receiverFields, encodeField]
  rw [hbody]
  exact (putSetHeader_stores _ size).andThen <| (putString_stores receiverCall).andThen <|
    (putString_stores receiverGrid).andThen (putString_stores software)

theorem putSenderSet_stores (reports : List PskReport) (size : Nat) :
    Stores (fun c => reports.foldl putReport (putSetHeader c [0x99, 0x93] size))
      ((u16 0x9993 ++ u16 size) ++ senderBody reports) := by
  rw [senderBody, List.flatMap_map]
  exact (putSetHeader_stores _ size).andThen (stores_foldl reports putReport_stores)

section Build

variable (packet : List UInt8) (capacity : Nat) (receiverCall receiverGrid software : CString)
  (reports : List PskReport) (sequence observationId : UInt32) (exportTime : Int)
  (includeTemplates : Bool) (packetSize : Nat)

/-- The tests a call makes before it adds up any sizes. -/
def ValidInput : Prop :=
  reports ≠ [] ∧ validTextLength receiverCall 12 ∧ validTextLength receiverGrid 6 ∧
    validTextLength software 63 ∧ 0 ≤ exportTime ∧ reports.all validReport

theorem packetSets_length :
    16 + (packetSets receiverCall receiverGrid software reports includeTemplates).length =
      16 + alignFour (4 + 1 + receiverCall.length + 1 + receiverGrid.length + 1 +
          software.length) +
        alignFour (4 + (reports.map reportSize).sum) +
        if includeTemplates then receiverTemplate.length + senderTemplate.length else 0 := by
  simp only [packetSets, List.length_append, paddedSet_length, receiverBody_length,
    senderBody_length, templateSets]
  split <;> simp only [List.length_append, List.length_nil] <;> omega

/-- The stores of a call that does not refuse, for the sizes it has added up. -/
theorem stores_buffer :
    let receiverSize := alignFour (4 + 1 + receiverCall.length + 1 + receiverGrid.length + 1 +
      software.length)
    let senderSize := alignFour (4 + (reports.map reportSize).sum)
    let sets := packetSets receiverCall receiverGrid software reports includeTemplates
    let c := putTemplates (putHeader packet (16 + sets.length) sequence observationId exportTime)
      includeTemplates
    let c := putString (putString (putString (putSetHeader c [0x99, 0x92] receiverSize)
      receiverCall) receiverGrid) software
    let c : Cursor := ⟨c.buffer, 16 + sets.length - senderSize⟩
    (reports.foldl putReport (putSetHeader c [0x99, 0x93] senderSize)).buffer =
      encodeHeader (16 + sets.length) (timeWord exportTime).toNat sequence.toNat
        observationId.toNat ++ sets ++ packet.drop (16 + sets.length) := by
  intro receiverSize senderSize sets
  have hreceiverBody := receiverBody_length receiverCall receiverGrid software
  have hsenderBody := senderBody_length reports
  have hreceiver : receiverSize = (receiverBody receiverCall receiverGrid software).length + 4 +
      paddingSize (receiverBody receiverCall receiverGrid software) := by
    have := alignFour_bounds (4 + (receiverBody receiverCall receiverGrid software).length)
    simp only [receiverSize, ← hreceiverBody, paddingSize]
    omega
  have hsender : senderSize = (senderBody reports).length + 4 +
      paddingSize (senderBody reports) := by
    have := alignFour_bounds (4 + (senderBody reports).length)
    simp only [senderSize, ← hsenderBody, paddingSize]
    omega
  have hsets : sets.length = (templateSets includeTemplates).length + receiverSize +
      senderSize := by
    simp only [sets, packetSets, List.length_append, paddedSet_length, hreceiverBody,
      hsenderBody, receiverSize, senderSize, Nat.add_assoc]
  -- Header, templates and receiver set follow each other without a gap.
  have hheader := putHeader_filledTo packet sequence observationId exportTime
    (Nat.le_add_right 16 sets.length)
  have htemplates := putTemplates_stores includeTemplates hheader (by omega)
  have hreceiverSet := putReceiverSet_stores receiverCall receiverGrid software receiverSize
    htemplates (by simp only [List.length_append, u16_length]; omega)
  -- The jump to the sender set passes over the receiver set's padding.
  have hjump := hreceiverSet.jump
    (show 16 + sets.length - senderSize = _ +
        paddingSize (receiverBody receiverCall receiverGrid software) by
      simp only [List.length_append, u16_length, encodeHeader_length]; omega)
    (by simp only [List.length_append, u16_length]; omega)
  have hsenderSet := putSenderSet_stores reports senderSize hjump
    (by simp only [List.length_append, u16_length]; omega)
  have hroom : 16 + sets.length - 16 - (templateSets includeTemplates).length -
      ((u16 0x9992 ++ u16 receiverSize) ++
        receiverBody receiverCall receiverGrid software).length -
      paddingSize (receiverBody receiverCall receiverGrid software) -
      ((u16 0x9993 ++ u16 senderSize) ++ senderBody reports).length =
        paddingSize (senderBody reports) := by
    simp only [List.length_append, u16_length]
    omega
  have hbytes : sets = templateSets includeTemplates ++
      (((u16 0x9992 ++ u16 receiverSize) ++ receiverBody receiverCall receiverGrid software ++
          zeros (paddingSize (receiverBody receiverCall receiverGrid software))) ++
        ((u16 0x9993 ++ u16 senderSize) ++ senderBody reports ++
          zeros (paddingSize (senderBody reports)))) := by
    simp only [sets, packetSets, paddedSet_eq hreceiver, paddedSet_eq hsender]
  refine hsenderSet.buffer_eq.trans ?_
  rw [hroom]
  clear_value sets
  subst hbytes
  simp only [List.append_assoc]

/-- Two ways a call can end: it refuses and touches neither the buffer nor the
size, or the buffer holds the header and the sets. -/
theorem pskReporterBuildPacket_cases :
    let result := pskReporterBuildPacket packet capacity receiverCall receiverGrid software
      reports sequence observationId exportTime includeTemplates packetSize
    let sets := packetSets receiverCall receiverGrid software reports includeTemplates
    let fits := ValidInput receiverCall receiverGrid software reports exportTime ∧
      16 + sets.length ≤ capacity ∧ 16 + sets.length ≤ 65535
    ¬ fits ∧ result = ⟨-1, packet, packetSize⟩ ∨
      fits ∧ result = ⟨0, encodeHeader (16 + sets.length) (timeWord exportTime).toNat
        sequence.toNat observationId.toNat ++ sets ++ packet.drop (16 + sets.length),
        16 + sets.length⟩ := by
  intro result sets fits
  have hlength : 16 + sets.length = _ :=
    packetSets_length receiverCall receiverGrid software reports includeTemplates
  have htests : ValidInput receiverCall receiverGrid software reports exportTime ↔
      ¬ (reports = [] || !validTextLength receiverCall 12 || !validTextLength receiverGrid 6 ||
        !validTextLength software 63 || exportTime < 0) = true ∧
      reports.all validReport = true := by
    simp only [ValidInput, Bool.or_eq_true, decide_eq_true_eq, Bool.not_eq_true',
      not_or, Bool.not_eq_false, Int.not_lt]
    tauto
  simp only [result, pskReporterBuildPacket, addReportSizes_eq]
  split
  · rename_i hrefused
    exact Or.inl ⟨fun h => (htests.mp h.1).1 hrefused, rfl⟩
  rename_i haccepted
  cases hreports : reports.all validReport with
  | false =>
      refine Or.inl ⟨fun h => ?_, rfl⟩
      rw [(htests.mp h.1).2] at hreports
      cases hreports
  | true =>
      have hvalid := htests.mpr ⟨haccepted, hreports⟩
      simp only [if_true]
      rw [← hlength]
      split
      · rename_i hlarge
        simp only [Bool.or_eq_true, decide_eq_true_eq] at hlarge
        exact Or.inl ⟨fun ⟨_, h⟩ => by omega, rfl⟩
      · rename_i hsmall
        simp only [Bool.or_eq_true, decide_eq_true_eq, not_or, Nat.not_lt] at hsmall
        refine Or.inr ⟨⟨hvalid, hsmall.1, hsmall.2⟩, ?_⟩
        have hbuffer := stores_buffer packet receiverCall receiverGrid software reports
          sequence observationId exportTime includeTemplates
        simpa only [BuildResult.mk.injEq, true_and, and_true] using hbuffer

end Build

end AirspyhfWsprd.Psk
