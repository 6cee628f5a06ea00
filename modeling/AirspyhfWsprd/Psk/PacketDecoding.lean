import AirspyhfWsprd.Psk.Packet

/-!
What an IPFIX decoder reads from a packet. The decoder knows the two templates
either from the template sets of the packet itself or from an earlier packet.
Besides them it may know any other templates.
-/

namespace AirspyhfWsprd.Psk

open Library Library.Ipfix

def receiverTemplateRecord : Template := ⟨0x9992, 1, receiverFields⟩

def senderTemplateRecord : Template := ⟨0x9993, 0, senderFields⟩

/-- The templates a decoder has learned from a packet with template sets. -/
def learnedTemplates : List Template := [senderTemplateRecord, receiverTemplateRecord]

/-- The fields of a sender record as the values they stand for: numbers with the most
significant byte first, and texts without their length. -/
structure SenderReading where
  senderCall : CString
  frequencyHz : Nat
  snr : Int
  mode : CString
  informationSource : Nat
  flowStart : Nat
deriving DecidableEq

def readSenderRecord : Record → Option SenderReading
  | [call, frequency, snr, mode, source, flowStart] =>
      some ⟨call, bigEndian frequency, (bigEndian snr : Int).bmod 256, mode, bigEndian source,
        bigEndian flowStart⟩
  | _ => none

/-- What a receiver of the packet should learn about a report. -/
def reportReading (report : PskReport) : SenderReading :=
  ⟨report.senderCall, report.frequencyHz.toNat, report.snr.toInt, bytes "FT8", 1,
    (report.flowStart % 2 ^ 32).toNat⟩

theorem timeWord_toNat (time : Int) : (timeWord time).toNat = (time % 2 ^ 32).toNat := by
  have hlt : (time % 2 ^ 32).toNat < 2 ^ 32 := by omega
  simp only [timeWord, UInt32.ofInt, UInt32.toNat_ofNat']
  omega

theorem readSenderRecord_senderRecord (report : PskReport) :
    readSenderRecord (senderRecord report) = some (reportReading report) := by
  have hfrequency := bigEndian_u32 report.frequencyHz.toNat_lt
  have hflow := (bigEndian_u32 (timeWord report.flowStart).toNat_lt).trans
    (timeWord_toNat report.flowStart)
  have hsnr : (bigEndian [report.snr.toUInt8] : Int).bmod 256 = report.snr.toInt := by
    simp only [bigEndian, List.foldl_cons, List.foldl_nil, Nat.zero_mul, Nat.zero_add]
    exact (BitVec.toInt_eq_toNat_bmod report.snr.toBitVec).symm
  have hsource : bigEndian [1] = 1 := by decide
  simp only [readSenderRecord, senderRecord, reportReading, hfrequency, hflow, hsnr, hsource]

/-- A decoded message tells exactly what the packet was built from, and its sets
tile it. -/
structure Describes (message : Message) (receiverCall receiverGrid software : CString)
    (reports : List PskReport) (sequence observationId : UInt32) (exportTime : Int)
    (includeTemplates : Bool) : Prop where
  exportTime_eq : message.exportTime = (exportTime % 2 ^ 32).toNat
  sequence_eq : message.sequence = sequence.toNat
  observationDomain_eq : message.observationDomain = observationId.toNat
  contents : ∃ records, message.sets.map (·.content) =
      (if includeTemplates then
        [.templates [receiverTemplateRecord], .templates [senderTemplateRecord]] else []) ++
      [.data 0x9992 [[receiverCall, receiverGrid, software]], .data 0x9993 records] ∧
    records.map readSenderRecord = reports.map fun report => some (reportReading report)
  tiled : 16 + (message.sets.map (·.length)).sum = message.length
  aligned : ∀ set ∈ message.sets, set.length % 4 = 0
  padding : ∀ set ∈ message.sets, ∃ count ≤ 3, set.padding = zeros count

section Decode

variable {receiverCall receiverGrid software : CString} {reports : List PskReport}
  {exportTime : Int}

theorem paddingSize_lt (body : List UInt8) : paddingSize body < 4 := by
  have := alignFour_bounds (4 + body.length)
  unfold paddingSize
  omega

theorem validTextLength_bounds {text : CString} {limit : Nat}
    (h : validTextLength text limit = true) : 0 < text.length ∧ text.length ≤ limit := by
  simp only [validTextLength, Bool.and_eq_true, bne_iff_ne, ne_eq, decide_eq_true_eq] at h
  exact ⟨List.length_pos_iff.mpr h.1, h.2⟩

theorem senderRecord_fits {report : PskReport} (hvalid : validReport report = true) :
    List.Forall₂ FieldFits senderFields (senderRecord report) := by
  simp only [validReport, Bool.and_eq_true] at hvalid
  have hcall := validTextLength_bounds hvalid.1.1
  have hlength : report.senderCall.length < 255 := by omega
  simp [senderFields, senderRecord, FieldFits, variableLength, bytes, hlength]

theorem learnedTemplates_find (earlier : List Template) :
    (learnedTemplates ++ earlier).find? (·.id == 0x9992) = some receiverTemplateRecord ∧
      (learnedTemplates ++ earlier).find? (·.id == 0x9993) = some senderTemplateRecord := by
  simp [learnedTemplates, List.find?, senderTemplateRecord, receiverTemplateRecord]

/-- By the learned template the sender set decodes to the records of its reports, and its
padding is the zeros that round its length up. -/
theorem decodeSets_senders (earlier : List Template) (fuel : Nat)
    (hreports : reports.all validReport = true)
    (hsize : (paddedSet 0x9993 (senderBody reports)).length < 2 ^ 16) :
    decodeSets 4 (fuel + 2) (learnedTemplates ++ earlier)
        (paddedSet 0x9993 (senderBody reports)) =
      some [⟨(paddedSet 0x9993 (senderBody reports)).length,
        .data 0x9993 (reports.map senderRecord), zeros (paddingSize (senderBody reports))⟩] := by
  have hfits : ∀ record ∈ reports.map senderRecord, List.Forall₂ FieldFits senderFields record := by
    intro record hrecord
    obtain ⟨report, hreport, rfl⟩ := List.mem_map.mp hrecord
    exact senderRecord_fits (List.all_eq_true.mp hreports report hreport)
  have hlong : ∀ record ∈ reports.map senderRecord,
      4 ≤ (encodeRecord senderFields record).length := by
    intro record hrecord
    obtain ⟨report, -, rfl⟩ := List.mem_map.mp hrecord
    rw [senderRecord_length]
    unfold reportSize
    omega
  have hset := decodeSets_data_cons (learnedTemplates ++ earlier) senderTemplateRecord
    (by decide) (learnedTemplates_find earlier).2 hfits hlong (paddingSize_lt (senderBody reports))
    hsize (decodeSets_nil 4 (learnedTemplates ++ earlier) fuel)
  rw [List.append_nil] at hset
  exact hset

/-- The set of the receiver and the set of the senders. -/
theorem decodeSets_data (earlier : List Template) (fuel : Nat)
    (hvalid : ValidInput receiverCall receiverGrid software reports exportTime)
    (hreceiverSize : (paddedSet 0x9992
      (receiverBody receiverCall receiverGrid software)).length < 2 ^ 16)
    (hsenderSize : (paddedSet 0x9993 (senderBody reports)).length < 2 ^ 16) :
    decodeSets 4 (fuel + 3) (learnedTemplates ++ earlier)
        (paddedSet 0x9992 (receiverBody receiverCall receiverGrid software) ++
          paddedSet 0x9993 (senderBody reports)) =
      some
        [⟨(paddedSet 0x9992 (receiverBody receiverCall receiverGrid software)).length,
          .data 0x9992 [[receiverCall, receiverGrid, software]],
          zeros (paddingSize (receiverBody receiverCall receiverGrid software))⟩,
        ⟨(paddedSet 0x9993 (senderBody reports)).length,
          .data 0x9993 (reports.map senderRecord), zeros (paddingSize (senderBody reports))⟩] := by
  obtain ⟨-, hcall, hgrid, hsoftware, -, hreports⟩ := hvalid
  have hcall := validTextLength_bounds hcall
  have hgrid := validTextLength_bounds hgrid
  have hsoftware := validTextLength_bounds hsoftware
  have hfits : ∀ record ∈ [[receiverCall, receiverGrid, software]],
      List.Forall₂ FieldFits receiverFields record := by
    have h₁ : receiverCall.length < 255 := by omega
    have h₂ : receiverGrid.length < 255 := by omega
    have h₃ : software.length < 255 := by omega
    simp [receiverFields, FieldFits, h₁, h₂, h₃]
  have hlong : ∀ record ∈ [[receiverCall, receiverGrid, software]],
      4 ≤ (encodeRecord receiverFields record).length := by
    intro record hrecord
    obtain rfl := List.mem_singleton.mp hrecord
    have hlength := receiverBody_length receiverCall receiverGrid software
    unfold receiverBody at hlength
    omega
  have hbody : receiverBody receiverCall receiverGrid software =
      [[receiverCall, receiverGrid, software]].flatMap (encodeRecord receiverFields) := by
    simp [receiverBody]
  have hsenders := decodeSets_senders earlier fuel hreports hsenderSize
  rw [hbody] at hreceiverSize ⊢
  exact decodeSets_data_cons (learnedTemplates ++ earlier) receiverTemplateRecord (by decide)
    (learnedTemplates_find earlier).1 hfits hlong (paddingSize_lt _) hreceiverSize hsenders

theorem decodeTemplates_templateSets :
    decodeTemplates true 33 (receiverTemplate.drop 4) = some ([receiverTemplateRecord], zeros 2) ∧
      decodeTemplates false 49 (senderTemplate.drop 4) =
        some ([senderTemplateRecord], zeros 0) := by
  decide +kernel

/-- The template sets teach the decoder what it would know from an earlier
packet. -/
theorem decodeSets_templates {earlier : List Template} {fuel : Nat} {data : List UInt8}
    {sets : List DecodedSet}
    (hdata : decodeSets 4 fuel (learnedTemplates ++ earlier) data = some sets) :
    decodeSets 4 (fuel + 2) earlier (templateSets true ++ data) =
      some (⟨36, .templates [receiverTemplateRecord], zeros 2⟩ ::
        ⟨52, .templates [senderTemplateRecord], zeros 0⟩ :: sets) := by
  have hbytes : templateSets true ++ data = encodeSet 3 (receiverTemplate.drop 4) ++
      (encodeSet 2 (senderTemplate.drop 4) ++ data) := rfl
  rw [hbytes]
  have hsender := decodeSets_cons (by decide) (by decide)
    (decodeSetBody_templates (Or.inl rfl) decodeTemplates_templateSets.2) hdata
  exact decodeSets_cons (by decide) (by decide)
    (decodeSetBody_templates (Or.inr rfl) decodeTemplates_templateSets.1) hsender

/-- The decoder of the whole packet, whichever way it came to know the templates. -/
theorem decodeSets_packetSets (earlier : List Template) (includeTemplates : Bool)
    (hvalid : ValidInput receiverCall receiverGrid software reports exportTime)
    (hsize : 16 + (packetSets receiverCall receiverGrid software reports
      includeTemplates).length ≤ 65535) :
    ∃ sets, decodeSets 4
        ((packetSets receiverCall receiverGrid software reports includeTemplates).length + 1)
        (if includeTemplates then earlier else learnedTemplates ++ earlier)
        (packetSets receiverCall receiverGrid software reports includeTemplates) = some sets ∧
      sets.map (·.content) = (if includeTemplates then
          [.templates [receiverTemplateRecord], .templates [senderTemplateRecord]] else []) ++
        [.data 0x9992 [[receiverCall, receiverGrid, software]],
          .data 0x9993 (reports.map senderRecord)] ∧
      (sets.map (·.length)).sum =
        (packetSets receiverCall receiverGrid software reports includeTemplates).length ∧
      (∀ set ∈ sets, set.length % 4 = 0) ∧
      ∀ set ∈ sets, ∃ count ≤ 3, set.padding = zeros count := by
  have hreceiver := paddedSet_length 0x9992 (receiverBody receiverCall receiverGrid software)
  have hsender := paddedSet_length 0x9993 (senderBody reports)
  have hreceiverAlign := alignFour_bounds
    (4 + (receiverBody receiverCall receiverGrid software).length)
  have hsenderAlign := alignFour_bounds (4 + (senderBody reports).length)
  have hreceiverPadding := paddingSize_lt (receiverBody receiverCall receiverGrid software)
  have hsenderPadding := paddingSize_lt (senderBody reports)
  have hlength : (packetSets receiverCall receiverGrid software reports includeTemplates).length =
      (templateSets includeTemplates).length +
        ((paddedSet 0x9992 (receiverBody receiverCall receiverGrid software)).length +
          (paddedSet 0x9993 (senderBody reports)).length) := by
    simp only [packetSets, List.length_append]
  have hdata (fuel : Nat) := decodeSets_data earlier fuel hvalid (by omega) (by omega)
  cases includeTemplates with
  | false =>
      obtain ⟨fuel, hfuel⟩ := Nat.exists_eq_add_of_le' (show 3 ≤ (packetSets receiverCall
        receiverGrid software reports false).length + 1 by omega)
      refine ⟨_, (congrArg (decodeSets 4 · _ _) hfuel).trans (hdata fuel), rfl, ?_, ?_, ?_⟩
      · simp [hlength, templateSets]
      · intro set hset
        simp only [List.mem_cons, List.not_mem_nil, or_false] at hset
        rcases hset with rfl | rfl <;> dsimp only <;> omega
      · intro set hset
        simp only [List.mem_cons, List.not_mem_nil, or_false] at hset
        rcases hset with rfl | rfl <;> exact ⟨_, by omega, rfl⟩
  | true =>
      have htemplates : (templateSets true).length = 88 := rfl
      obtain ⟨fuel, hfuel⟩ := Nat.exists_eq_add_of_le' (show 5 ≤ (packetSets receiverCall
        receiverGrid software reports true).length + 1 by omega)
      refine ⟨_, (congrArg (decodeSets 4 · _ _) hfuel).trans (decodeSets_templates (hdata fuel)),
        rfl, ?_, ?_, ?_⟩
      · simp only [hlength, htemplates, List.map_cons, List.map_nil, List.sum_cons, List.sum_nil]
        omega
      · intro set hset
        simp only [List.mem_cons, List.not_mem_nil, or_false] at hset
        rcases hset with rfl | rfl | rfl | rfl <;> dsimp only <;> omega
      · intro set hset
        simp only [List.mem_cons, List.not_mem_nil, or_false] at hset
        rcases hset with rfl | rfl | rfl | rfl <;> exact ⟨_, by omega, rfl⟩

end Decode

/-- The message in the packet of a call that returns 0. -/
theorem pskReporterBuildPacket_describes {packet : List UInt8} {capacity : Nat}
    {receiverCall receiverGrid software : CString} {reports : List PskReport}
    {sequence observationId : UInt32} {exportTime : Int} {includeTemplates : Bool}
    {packetSize : Nat} (earlier : List Template)
    (hbuilt : (pskReporterBuildPacket packet capacity receiverCall receiverGrid software
      reports sequence observationId exportTime includeTemplates packetSize).status = 0) :
    let result := pskReporterBuildPacket packet capacity receiverCall receiverGrid software
      reports sequence observationId exportTime includeTemplates packetSize
    ∃ message,
      decodeMessage 4 (if includeTemplates then earlier else learnedTemplates ++ earlier)
          (result.packet.take result.packetSize) = some message ∧
        message.length = result.packetSize ∧
        Describes message receiverCall receiverGrid software reports sequence observationId
          exportTime includeTemplates := by
  intro result
  have hcases := pskReporterBuildPacket_cases packet capacity receiverCall receiverGrid software
    reports sequence observationId exportTime includeTemplates packetSize
  rcases hcases with ⟨-, hrefused⟩ | ⟨⟨hvalid, -, hsize⟩, hresult⟩
  · rw [hrefused] at hbuilt
    exact absurd hbuilt (show ¬ (-1 : Int) = 0 by decide)
  · rw [show result = _ from hresult]
    obtain ⟨sets, hdecoded, hcontents, htiled, haligned, hpadding⟩ :=
      decodeSets_packetSets earlier includeTemplates hvalid hsize
    have hmessage := decodeMessage_encode (timeWord exportTime).toNat_lt sequence.toNat_lt
      observationId.toNat_lt (by omega) hdecoded
    rw [Nat.add_comm _ 16] at hmessage
    refine ⟨_, (congrArg (decodeMessage 4 _) ?_).trans hmessage, rfl, ?_⟩
    · exact List.take_left' (by rw [List.length_append, encodeHeader_length])
    · refine ⟨timeWord_toNat exportTime, rfl, rfl, ⟨_, hcontents, ?_⟩, ?_, haligned, hpadding⟩
      · simp only [List.map_map, Function.comp_def, readSenderRecord_senderRecord]
      · rw [htiled]

/-- An IPFIX decoder undoes the packet builder: when a call returns 0, the packet decodes to
the receiver's strings, the header fields and the reports it was built from. The decoder reads
the records by the templates in the packet, or by those of an earlier one. A call that returns
anything else returns -1 and changes nothing. -/
theorem pskReporterBuildPacket_decodes (packet : List UInt8) (capacity : Nat)
    (receiverCall receiverGrid software : CString) (reports : List PskReport)
    (sequence observationId : UInt32) (exportTime : Int) (includeTemplates : Bool)
    (packetSize : Nat) (earlier : List Template) :
    let result := pskReporterBuildPacket packet capacity receiverCall receiverGrid software
      reports sequence observationId exportTime includeTemplates packetSize
    (result.status = 0 → ∃ message,
      decodeMessage 4 (if includeTemplates then earlier else learnedTemplates ++ earlier)
          (result.packet.take result.packetSize) = some message ∧
        message.length = result.packetSize ∧
        Describes message receiverCall receiverGrid software reports sequence observationId
          exportTime includeTemplates) ∧
      (result.status ≠ 0 →
        result.status = -1 ∧ result.packet = packet ∧ result.packetSize = packetSize) := by
  intro result
  refine ⟨pskReporterBuildPacket_describes earlier, fun hstatus => ?_⟩
  have hcases := pskReporterBuildPacket_cases packet capacity receiverCall receiverGrid software
    reports sequence observationId exportTime includeTemplates packetSize
  rcases hcases with ⟨-, hrefused⟩ | ⟨-, hbuilt⟩
  · rw [show result = _ from hrefused]
    exact ⟨rfl, rfl, rfl⟩
  · rw [show result = _ from hbuilt] at hstatus
    exact absurd rfl hstatus

end AirspyhfWsprd.Psk
