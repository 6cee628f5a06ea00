import Mathlib.Algebra.Order.BigOperators.Group.List
import Mathlib.Algebra.Order.Ring.Nat
import AirspyhfWsprd.Psk.Reporter

/-!
The report queue over whole runs: the callsigns in it are distinct, and while a
packet is in flight the front of the queue still has the packet's callsigns in
the packet's order. Enqueueing never touches the order; it may strengthen the
report of a callsign, also of one whose packet is in flight.
-/

namespace AirspyhfWsprd.Psk

open Library

/-- The callsigns of a list of reports. -/
def calls (reports : List PskReport) : List CString := reports.map (·.senderCall)

def ValidStrings (reporter : PskReporter) : Prop :=
  validTextLength reporter.receiverCall 12 ∧ validTextLength reporter.receiverGrid 6 ∧
    validTextLength reporter.software 63

/-- The packet of these bytes and this size was built from these reports. -/
def BuiltFrom (reporter : PskReporter) (reports : List PskReport) (templates : Bool)
    (packet : List UInt8) (packetSize : Nat) : Prop :=
  ∃ before size now, pskReporterBuildPacket before pskReportPacketCapacity
    reporter.receiverCall reporter.receiverGrid reporter.software reports reporter.sequence
    reporter.observationId now templates size = ⟨0, packet, packetSize⟩

theorem reportSize_le {report : PskReport} (hvalid : validReport report = true) :
    reportSize report ≤ 27 := by
  simp only [validReport, validTextLength, Bool.and_eq_true, decide_eq_true_eq] at hvalid
  have := hvalid.1.1.2
  unfold reportSize
  omega

/-- Forty valid reports always fit. -/
theorem pskReporterBuildPacket_fits {reporter : PskReporter} {reports : List PskReport}
    (hstrings : ValidStrings reporter) (hvalid : ∀ report ∈ reports, validReport report = true)
    (hne : reports ≠ []) (hcount : reports.length ≤ pskReportImmediateCount) {now : Int}
    (hnow : 0 ≤ now) (packet : List UInt8) (templates : Bool) (packetSize : Nat) :
    (pskReporterBuildPacket packet pskReportPacketCapacity reporter.receiverCall
      reporter.receiverGrid reporter.software reports reporter.sequence reporter.observationId
      now templates packetSize).status = 0 := by
  obtain ⟨hcall, hgrid, hsoftware⟩ := hstrings
  have hall : reports.all validReport = true := List.all_eq_true.mpr hvalid
  have hsum : (reports.map reportSize).sum ≤ reports.length * 27 := by
    have h := List.sum_le_card_nsmul (reports.map reportSize) 27 fun size hsize => by
      obtain ⟨report, hreport, rfl⟩ := List.mem_map.mp hsize
      exact reportSize_le (hvalid report hreport)
    simpa using h
  have hreceiver := alignFour_bounds (4 + 1 + reporter.receiverCall.length + 1 +
    reporter.receiverGrid.length + 1 + reporter.software.length)
  have hsender := alignFour_bounds (4 + (reports.map reportSize).sum)
  have htemplates : (if templates then receiverTemplate.length + senderTemplate.length else 0) ≤
      88 := by
    cases templates <;> decide
  have hsize := packetSets_length reporter.receiverCall reporter.receiverGrid reporter.software
    reports templates
  have hlengths : reporter.receiverCall.length ≤ 12 ∧ reporter.receiverGrid.length ≤ 6 ∧
      reporter.software.length ≤ 63 := by
    simp only [validTextLength, Bool.and_eq_true, decide_eq_true_eq] at hcall hgrid hsoftware
    exact ⟨hcall.2, hgrid.2, hsoftware.2⟩
  have himmediate : pskReportImmediateCount = 40 := rfl
  have hcapacity : pskReportPacketCapacity = 1400 := rfl
  rcases pskReporterBuildPacket_cases packet pskReportPacketCapacity reporter.receiverCall
    reporter.receiverGrid reporter.software reports reporter.sequence reporter.observationId now
    templates packetSize with ⟨hfits, -⟩ | ⟨-, hbuilt⟩
  · exact absurd ⟨⟨hne, hcall, hgrid, hsoftware, hnow, hall⟩, by omega, by omega⟩ hfits
  · rw [hbuilt]

/-- The loop that looks for the number of reports that fit ends with a count for which the
packet was built, or with none when not even one report fits. -/
theorem packetReportCountLoop_spec (reporter : PskReporter) (templates : Bool) (now : Int)
    (count : Nat) (packet : List UInt8) (packetSize : Nat) :
    let result := packetReportCountLoop reporter templates now count packet packetSize
    result.1 ≤ count ∧ (result.1 ≠ 0 →
      BuiltFrom reporter (reporter.queue.take result.1) templates result.2.1 result.2.2) := by
  induction count generalizing packet packetSize with
  | zero => exact ⟨Nat.le_refl _, fun h => absurd rfl h⟩
  | succ count ih =>
      simp only [packetReportCountLoop]
      split
      · have h := ih (pskReporterBuildPacket packet pskReportPacketCapacity
          reporter.receiverCall reporter.receiverGrid reporter.software
          (reporter.queue.take (count + 1)) reporter.sequence reporter.observationId now templates
          packetSize).packet (pskReporterBuildPacket packet pskReportPacketCapacity
          reporter.receiverCall reporter.receiverGrid reporter.software
          (reporter.queue.take (count + 1)) reporter.sequence reporter.observationId now templates
          packetSize).packetSize
        exact ⟨Nat.le_succ_of_le h.1, h.2⟩
      · rename_i hstatus
        refine ⟨Nat.le_refl _, fun _ => ⟨packet, packetSize, now, ?_⟩⟩
        rw [← Decidable.not_not.mp hstatus]

/-- A packet that is built holds the first reports of the queue, no more than there are and no
more than make the thread send at once. -/
theorem packetReportCount_spec (reporter : PskReporter) (templates : Bool)
    (packet : List UInt8) (packetSize : Nat) (now : Int) :
    let result := packetReportCount reporter templates packet packetSize now
    result.1 ≤ reporter.queue.length ∧ result.1 ≤ pskReportImmediateCount ∧ (result.1 ≠ 0 →
      BuiltFrom reporter (reporter.queue.take result.1) templates result.2.1 result.2.2) := by
  intro result
  have h := packetReportCountLoop_spec reporter templates now
    (if reporter.count < pskReportImmediateCount then reporter.count else pskReportImmediateCount)
    packet packetSize
  have hle : (if reporter.count < pskReportImmediateCount then reporter.count
      else pskReportImmediateCount) ≤ reporter.queue.length := by
    unfold PskReporter.count
    split <;> omega
  refine ⟨Nat.le_trans h.1 hle, Nat.le_trans h.1 ?_, h.2⟩
  split <;> omega

/-- The first attempt of `packet_report_count`: up to forty reports from the front. -/
def firstBuild (reporter : PskReporter) (templates : Bool) (packet : List UInt8)
    (packetSize : Nat) (now : Int) : BuildResult :=
  pskReporterBuildPacket packet pskReportPacketCapacity reporter.receiverCall
    reporter.receiverGrid reporter.software
    (reporter.queue.take (min reporter.count pskReportImmediateCount)) reporter.sequence
    reporter.observationId now templates packetSize

section FirstBuild

variable {reporter : PskReporter} {now : Int}

/-- The first attempt succeeds, so nothing is dropped as impossible to encode. -/
theorem firstBuild_succeeds (hstrings : ValidStrings reporter)
    (hvalid : ∀ report ∈ reporter.queue, validReport report = true)
    (hne : reporter.queue ≠ []) (hnow : 0 ≤ now) (templates : Bool) (packet : List UInt8)
    (packetSize : Nat) :
    (firstBuild reporter templates packet packetSize now).status = 0 ∧
      packetReportCount reporter templates packet packetSize now =
        (min reporter.count pskReportImmediateCount,
          (firstBuild reporter templates packet packetSize now).packet,
          (firstBuild reporter templates packet packetSize now).packetSize) := by
  have hpos : 0 < reporter.queue.length := List.length_pos_iff.mpr hne
  have hmin : (if reporter.count < pskReportImmediateCount then reporter.count
      else pskReportImmediateCount) = min reporter.count pskReportImmediateCount := by
    split <;> omega
  have himmediate : pskReportImmediateCount = 40 := rfl
  have hcount : reporter.count = reporter.queue.length := rfl
  obtain ⟨count, hfirst⟩ := Nat.exists_eq_add_of_le'
    (show 1 ≤ min reporter.count pskReportImmediateCount by omega)
  have htake : (reporter.queue.take (count + 1)).length = count + 1 := by
    rw [List.length_take]
    omega
  have hfront : reporter.queue.take (count + 1) ≠ [] := by
    rw [← List.length_pos_iff, htake]
    exact Nat.succ_pos count
  have hshort : (reporter.queue.take (count + 1)).length ≤ pskReportImmediateCount := by omega
  have hfits := pskReporterBuildPacket_fits hstrings
    (fun report hreport => hvalid report (List.mem_of_mem_take hreport)) hfront hshort hnow packet
    templates packetSize
  rw [packetReportCount, hmin, firstBuild, hfirst]
  simp only [packetReportCountLoop, hfits, ne_eq, not_true_eq_false, if_false, and_self]

theorem packetReportCount_eq (hstrings : ValidStrings reporter)
    (hvalid : ∀ report ∈ reporter.queue, validReport report = true)
    (hne : reporter.queue ≠ []) (hnow : 0 ≤ now) (templates : Bool) (packet : List UInt8)
    (packetSize : Nat) :
    (packetReportCount reporter templates packet packetSize now).1 =
      min reporter.queue.length pskReportImmediateCount :=
  congrArg Prod.fst (firstBuild_succeeds hstrings hvalid hne hnow templates packet packetSize).2

/-- A packet is never larger than its buffer. -/
theorem BuiltFrom.size_le {reports : List PskReport} {templates : Bool} {packet : List UInt8}
    {packetSize : Nat} (hbuilt : BuiltFrom reporter reports templates packet packetSize) :
    packetSize ≤ pskReportPacketCapacity := by
  obtain ⟨before, size, now, hresult⟩ := hbuilt
  rcases pskReporterBuildPacket_cases before pskReportPacketCapacity reporter.receiverCall
    reporter.receiverGrid reporter.software reports reporter.sequence reporter.observationId now
    templates size with ⟨-, hrefused⟩ | ⟨⟨-, hfits, -⟩, hbuilt⟩
  · rw [hresult] at hrefused
    exact absurd (congrArg BuildResult.status hrefused) (show ¬ (0 : Int) = -1 by decide)
  · rw [hresult] at hbuilt
    have hsize : packetSize = _ := congrArg BuildResult.packetSize hbuilt
    rw [hsize]
    exact hfits

end FirstBuild

theorem replaceWeaker_none {report : PskReport} {queue : List PskReport} :
    replaceWeaker report queue = none ↔ report.senderCall ∉ calls queue := by
  induction queue with
  | nil => simp [replaceWeaker, calls]
  | cons entry entries ih =>
      simp only [replaceWeaker, calls, List.map_cons, List.mem_cons, not_or]
      split
      · rename_i hsame
        simp [hsame]
      · rename_i hother
        rw [Option.map_eq_none_iff, ih]
        exact ⟨fun h => ⟨fun heq => hother heq.symm, h⟩, fun h => h.2⟩

/-- The entry of the callsign is replaced where it stands when the new report is stronger, and
kept otherwise. The callsigns of the queue and their order do not change. -/
theorem replaceWeaker_some {report : PskReport} {queue queue' : List PskReport}
    (h : replaceWeaker report queue = some queue') :
    ∃ before entry after, queue = before ++ entry :: after ∧
      entry.senderCall = report.senderCall ∧
      queue' = before ++ (if entry.snr < report.snr then report else entry) :: after := by
  induction queue generalizing queue' with
  | nil => cases h
  | cons first entries ih =>
      simp only [replaceWeaker] at h
      split at h
      · cases h
        exact ⟨[], first, entries, rfl, ‹_›, rfl⟩
      · obtain ⟨rest, hrest, rfl⟩ := Option.map_eq_some_iff.mp h
        obtain ⟨before, entry, after, rfl, hsame, rfl⟩ := ih hrest
        exact ⟨first :: before, entry, after, rfl, hsame, rfl⟩

/-- Enqueueing changes nothing, strengthens one entry, or appends a new callsign. -/
theorem pskReporterEnqueue_cases (reporter : PskReporter) (report : PskReport) (now : Int) :
    (pskReporterEnqueue reporter report now).2 = reporter ∨
      validReport report = true ∧ recentlySent reporter report.senderCall now = false ∧
        ((∃ before entry after, reporter.queue = before ++ entry :: after ∧
            entry.senderCall = report.senderCall ∧ entry.snr < report.snr ∧
            (pskReporterEnqueue reporter report now).2 =
              {reporter with queue := before ++ report :: after}) ∨
          report.senderCall ∉ calls reporter.queue ∧
            reporter.queue.length < pskReportQueueCapacity ∧
            (pskReporterEnqueue reporter report now).2 =
              {reporter with queue := reporter.queue ++ [report]}) := by
  unfold pskReporterEnqueue
  split
  · exact Or.inl rfl
  rename_i hvalid
  split
  · exact Or.inl rfl
  rename_i hrecent
  have hvalid : validReport report = true := by simpa using hvalid
  have hrecent : recentlySent reporter report.senderCall now = false := by simpa using hrecent
  split
  · rename_i queue hreplaced
    obtain ⟨before, entry, after, hqueue, hsame, rfl⟩ := replaceWeaker_some hreplaced
    split
    · exact Or.inr ⟨hvalid, hrecent, Or.inl ⟨before, entry, after, hqueue, hsame, ‹_›, rfl⟩⟩
    · left
      cases reporter
      cases hqueue
      rfl
  · rename_i hnone
    split
    · exact Or.inl rfl
    · rename_i hroom
      have hlt : reporter.queue.length < pskReportQueueCapacity := by
        unfold PskReporter.count at hroom
        omega
      exact Or.inr ⟨hvalid, hrecent, Or.inr ⟨replaceWeaker_none.mp hnone, hlt, rfl⟩⟩

/-- The thread goes on to build a packet at this time. -/
def buildsPacket (reporter : PskReporter) (now : Int) : Bool :=
  !mustWait reporter now && !reporter.stopping && reporter.count != 0

def ReporterPoint.IsSending : ReporterPoint → Prop
  | .sending _ _ _ => True
  | _ => False

/-- A step of the thread leaves the queue alone, drops a report it cannot encode,
or hands a packet to the transport. -/
inductive ThreadEffect (s : ReporterRun) (now : Int) : ReporterRun → Prop where
  | quiet (point : ReporterPoint) (nextFlush : Int) (hpoint : ¬ point.IsSending) :
      ThreadEffect s now {s with
        clock := now
        point := point
        reporter := {s.reporter with nextFlush := nextFlush}}
  | drop {packet : List UInt8} {packetSize : Nat}
      (hbuilds : buildsPacket s.reporter now = true)
      (hcount : packetReportCount s.reporter (templatesDue s.reporter now) s.packet 0 now =
        (0, packet, packetSize)) :
      ThreadEffect s now {s with
        clock := now
        point := .loop
        packet := packet
        reporter := {s.reporter with queue := s.reporter.queue.drop 1}}
  | send {count packetSize : Nat} {packet : List UInt8}
      (hbuilds : buildsPacket s.reporter now = true)
      (hcount : packetReportCount s.reporter (templatesDue s.reporter now) s.packet 0 now =
        (count, packet, packetSize))
      (hpos : count ≠ 0) :
      ThreadEffect s now {s with
        clock := now
        point := .sending packetSize count (templatesDue s.reporter now)
        packet := packet
        inFlight := s.reporter.queue.take count}

/-- What the thread does when it need not wait: it hands a packet to the transport, drops a
report that it cannot encode, or leaves the queue alone. -/
theorem afterWait_effect (s : ReporterRun) {now : Int}
    (hwait : mustWait s.reporter now = false) :
    ThreadEffect s now (afterWait {s with clock := now} now) := by
  unfold afterWait
  dsimp only
  split
  · split
    · exact .quiet _ _ id
    · exact .quiet _ s.reporter.nextFlush id
  · rename_i hbuild
    rw [not_or, Bool.not_eq_true] at hbuild
    have hbuilds : buildsPacket s.reporter now = true := by
      simp [buildsPacket, hwait, hbuild.1, hbuild.2]
    split
    · rename_i hzero
      exact .drop hbuilds (Prod.ext hzero rfl)
    · rename_i hpos
      exact .send hbuilds rfl hpos

/-- Every step of the thread outside the transport call is one of the cases of `ThreadEffect`,
and it is taken at a time not before the last one. -/
theorem thread_effect {s t : ReporterRun} {now : Int}
    (hstep : reporterStep s (.thread now) = some t) :
    s.clock ≤ now ∧ ¬ s.point.IsSending ∧ ThreadEffect s now t := by
  have hquiet (point : ReporterPoint) (hpoint : ¬ point.IsSending) :
      ThreadEffect s now {s with clock := now, point := point} :=
    .quiet point s.reporter.nextFlush hpoint
  have hwaits {u : ReporterRun} (h : (if mustWait s.reporter now then
      some {s with clock := now, point := .waiting}
      else some (afterWait {s with clock := now} now)) = some u) : ThreadEffect s now u := by
    split at h
    · cases h
      exact hquiet _ id
    · rename_i hwait
      cases h
      exact afterWait_effect s (by simpa using hwait)
  simp only [reporterStep] at hstep
  split at hstep
  · cases hstep
  rename_i hclock
  refine ⟨Int.not_lt.mp hclock, ?_⟩
  cases hpoint : s.point with
  | start | loop =>
      simp only [hpoint] at hstep
      refine ⟨id, ?_⟩
      split at hstep
      · cases hstep
        exact hquiet _ id
      · exact hwaits hstep
  | waiting =>
      simp only [hpoint] at hstep
      exact ⟨id, hwaits hstep⟩
  | sending packetSize count templates | exited => simp [hpoint] at hstep

/-- The return of a transport call: it ends the sending of the packet whose size and count the
thread keeps, and time has not gone back. -/
theorem transport_effect {s t : ReporterRun} {sent : Bool} {now : Int}
    (hstep : reporterStep s (.transportReturns sent now) = some t) :
    s.clock ≤ now ∧ ∃ packetSize count templates,
      s.point = .sending packetSize count templates ∧
        t = afterTransport {s with clock := now} count templates sent now := by
  simp only [reporterStep] at hstep
  split at hstep
  · cases hstep
  rename_i hclock
  refine ⟨Int.not_lt.mp hclock, ?_⟩
  cases hpoint : s.point with
  | sending packetSize count templates =>
      simp only [hpoint, Option.some.injEq] at hstep
      exact ⟨packetSize, count, templates, rfl, hstep.symm⟩
  | start | loop | waiting | exited => simp [hpoint] at hstep

theorem enqueue_effect {s t : ReporterRun} {report : PskReport} {now : Int}
    (hstep : reporterStep s (.enqueue report now) = some t) :
    t = {s with
      clock := max s.clock now
      reporter := (pskReporterEnqueue s.reporter report now).2} := by
  cases hpoint : s.point with
  | loop => simp [reporterStep, hpoint] at hstep
  | start | waiting | sending | exited =>
      simp only [reporterStep, hpoint, Option.some.injEq] at hstep
      exact hpoint ▸ hstep.symm

theorem stop_effect {s t : ReporterRun} (hstep : reporterStep s .stop = some t) :
    t = {s with reporter := {s.reporter with stopping := true}} := by
  cases hpoint : s.point with
  | loop => simp [reporterStep, hpoint] at hstep
  | start | waiting | sending | exited =>
      simp only [reporterStep, hpoint, Option.some.injEq] at hstep
      exact hpoint ▸ hstep.symm

structure ReporterInv (s : ReporterRun) : Prop where
  strings : ValidStrings s.reporter
  valid : ∀ report ∈ s.reporter.queue, validReport report = true
  distinct : (calls s.reporter.queue).Nodup
  room : s.reporter.queue.length ≤ pskReportQueueCapacity
  idle : ¬ s.point.IsSending → s.inFlight = []
  front : calls s.inFlight <+: calls s.reporter.queue
  flight : ∀ packetSize count templates, s.point = .sending packetSize count templates →
    count = s.inFlight.length ∧ count ≠ 0 ∧
      BuiltFrom s.reporter s.inFlight templates s.packet packetSize

theorem pskReporterStart_valid {receiverCall receiverGrid software : CString}
    {observationId : UInt32} {now : Int} {reporter : PskReporter}
    (hstart : pskReporterStart receiverCall receiverGrid software observationId now =
      some reporter) :
    ValidStrings reporter ∧ reporter.queue = [] ∧
      reporter.recent = List.replicate 256 ⟨[], 0⟩ := by
  unfold pskReporterStart at hstart
  split at hstart
  · cases hstart
  · rename_i hvalid
    cases hstart
    simp only [Bool.or_eq_true, Bool.not_eq_true', not_or, Bool.not_eq_false] at hvalid
    exact ⟨⟨hvalid.1.1, hvalid.1.2, hvalid.2⟩, rfl, rfl⟩

theorem reporterRunStart_inv {reporter : PskReporter} (hstrings : ValidStrings reporter)
    (hqueue : reporter.queue = []) (packet : List UInt8) (now : Int) :
    ReporterInv (reporterRunStart reporter packet now) where
  strings := hstrings
  valid := by simp [reporterRunStart, hqueue]
  distinct := by simp [reporterRunStart, hqueue, calls]
  room := by simp [reporterRunStart, hqueue]
  idle := fun _ => rfl
  front := List.nil_prefix
  flight := fun _ _ _ h => nomatch h

section Step

variable {s t : ReporterRun}

/-- An enqueue keeps the callsigns of the queue distinct, and those of a packet in flight at
its front, as it appends behind them or changes an entry in place. -/
theorem enqueue_inv (hinv : ReporterInv s) {report : PskReport} {now : Int}
    (hstep : reporterStep s (.enqueue report now) = some t) : ReporterInv t := by
  obtain ⟨hstrings, hvalid, hdistinct, hroom, hidle, hfront, hflight⟩ := hinv
  rw [enqueue_effect hstep]
  rcases pskReporterEnqueue_cases s.reporter report now with h | ⟨hreport, -, h⟩
  · rw [h]
    exact ⟨hstrings, hvalid, hdistinct, hroom, hidle, hfront, hflight⟩
  rcases h with ⟨before, entry, after, hqueue, hsame, -, h⟩ | ⟨hfresh, hlt, h⟩
  · have hcalls : calls (before ++ report :: after) = calls s.reporter.queue := by
      rw [hqueue, calls, calls, List.map_append, List.map_append, List.map_cons, List.map_cons,
        hsame]
    have hlength := congrArg List.length hcalls
    simp only [calls, List.length_map] at hlength
    rw [h]
    refine ⟨hstrings, ?_, hcalls ▸ hdistinct, hlength ▸ hroom, hidle, hcalls ▸ hfront, hflight⟩
    intro r hr
    rcases List.mem_append.mp hr with hr | hr
    · exact hvalid r (hqueue ▸ List.mem_append_left _ hr)
    · rcases List.mem_cons.mp hr with rfl | hr
      · exact hreport
      · exact hvalid r (hqueue ▸ List.mem_append_right _ (List.mem_cons_of_mem _ hr))
  · have hcalls : calls (s.reporter.queue ++ [report]) =
        calls s.reporter.queue ++ [report.senderCall] := List.map_append
    rw [h]
    refine ⟨hstrings, ?_, ?_, ?_, hidle, ?_, hflight⟩
    · intro r hr
      rcases List.mem_append.mp hr with hr | hr
      · exact hvalid r hr
      · exact List.mem_singleton.mp hr ▸ hreport
    · rw [hcalls]
      exact List.nodup_append.mpr ⟨hdistinct, List.nodup_singleton _, fun a ha b hb heq =>
        hfresh (List.mem_singleton.mp hb ▸ heq ▸ ha)⟩
    · rw [List.length_append]
      exact hlt
    · rw [hcalls]
      exact hfront.trans (List.prefix_append _ _)

/-- The thread keeps the invariant: when it builds a packet, the packet's callsigns are those
at the front of the queue, since nothing can change between the building and the send. -/
theorem thread_inv (hinv : ReporterInv s) {now : Int}
    (hstep : reporterStep s (.thread now) = some t) : ReporterInv t := by
  obtain ⟨hstrings, hvalid, hdistinct, hroom, hidle, -, -⟩ := hinv
  obtain ⟨-, hpoint, heffect⟩ := thread_effect hstep
  have hnone := hidle hpoint
  have hdrop (count : Nat) : (s.reporter.queue.drop count).Sublist s.reporter.queue :=
    List.drop_sublist _ _
  cases heffect with
  | quiet point nextFlush hquiet =>
      refine ⟨hstrings, hvalid, hdistinct, hroom, fun _ => hnone, ?_, ?_⟩
      · rw [hnone]
        exact List.nil_prefix
      · rintro _ _ _ rfl
        exact absurd trivial hquiet
  | drop hbuilds hcount =>
      refine ⟨hstrings, fun r hr => hvalid r ((hdrop 1).subset hr),
        hdistinct.sublist ((hdrop 1).map _), Nat.le_trans (hdrop 1).length_le hroom,
        fun _ => hnone, ?_, fun _ _ _ h => nomatch h⟩
      rw [hnone]
      exact List.nil_prefix
  | send hbuilds hcount hpos =>
      have hspec := packetReportCount_spec s.reporter (templatesDue s.reporter now) s.packet 0 now
      rw [hcount] at hspec
      obtain ⟨hle, -, hbuilt⟩ := hspec
      refine ⟨hstrings, hvalid, hdistinct, hroom, fun h => absurd trivial h,
        (List.take_prefix _ _).map _, ?_⟩
      rintro _ _ _ ⟨⟩
      refine ⟨?_, hpos, hbuilt hpos⟩
      rw [List.length_take]
      exact (Nat.min_eq_left hle).symm

theorem transport_inv (hinv : ReporterInv s) {sent : Bool} {now : Int}
    (hstep : reporterStep s (.transportReturns sent now) = some t) : ReporterInv t := by
  obtain ⟨hstrings, hvalid, hdistinct, hroom, -, -, -⟩ := hinv
  obtain ⟨-, packetSize, count, templates, -, rfl⟩ := transport_effect hstep
  have hdrop : (s.reporter.queue.drop count).Sublist s.reporter.queue := List.drop_sublist _ _
  cases sent with
  | false =>
      exact ⟨hstrings, hvalid, hdistinct, hroom, fun _ => rfl, List.nil_prefix,
        fun _ _ _ h => nomatch h⟩
  | true =>
      exact ⟨hstrings, fun r hr => hvalid r (hdrop.subset hr), hdistinct.sublist (hdrop.map _),
        Nat.le_trans hdrop.length_le hroom, fun _ => rfl, List.nil_prefix,
        fun _ _ _ h => nomatch h⟩

theorem stop_inv (hinv : ReporterInv s) (hstep : reporterStep s .stop = some t) :
    ReporterInv t := by
  obtain ⟨hstrings, hvalid, hdistinct, hroom, hidle, hfront, hflight⟩ := hinv
  rw [stop_effect hstep]
  exact ⟨hstrings, hvalid, hdistinct, hroom, hidle, hfront, hflight⟩

theorem reporterStep_inv (hinv : ReporterInv s) {a : ReporterAction}
    (hstep : reporterStep s a = some t) : ReporterInv t := by
  cases a with
  | enqueue report now => exact enqueue_inv hinv hstep
  | thread now => exact thread_inv hinv hstep
  | transportReturns sent now => exact transport_inv hinv hstep
  | stop => exact stop_inv hinv hstep

end Step

end AirspyhfWsprd.Psk
