import AirspyhfWsprd.Library.StampTable
import AirspyhfWsprd.Library.Transition
import AirspyhfWsprd.Psk.Packet

/-!
The PSK Reporter thread of `psk_reporter.c`. Producers add validated reports to
the queue or replace weaker ones in it. The thread builds a packet from the front
of the queue, releases the mutex for the transport call and then removes as many
reports as the packet held. What a thread does while it holds the mutex is split
only where the thread reads the clock again.
-/

namespace AirspyhfWsprd.Psk

open Library

def pskReportQueueCapacity : Nat := 512
def pskReportPacketCapacity : Nat := 1400
def pskReportFlushSeconds : Int := 300
def pskReportRetrySeconds : Int := 60
def pskReportTemplateSeconds : Int := 3600
def pskReportImmediateCount : Nat := 40

/-- `struct psk_recent_sender`: a callsign and the time it was sent at. An empty
callsign marks a free slot. -/
abbrev PskRecentSender := Stamped CString

/-- `struct psk_reporter`, started. The list `queue` is the first `count` entries
of the array. -/
structure PskReporter where
  queue : List PskReport
  sequence : UInt32
  observationId : UInt32
  packetCount : UInt32
  templatesLastSent : Int
  nextFlush : Int
  stopping : Bool
  receiverCall : CString
  receiverGrid : CString
  software : CString
  recent : List PskRecentSender

def PskReporter.count (reporter : PskReporter) : Nat := reporter.queue.length

/-- `next_flush` for a flush interval that begins now. -/
def PskReporter.flushTime (reporter : PskReporter) (now : Int) : Int :=
  now + pskReportFlushSeconds + (reporter.observationId % 31).toNat

/-- `psk_reporter_start`; the session identifier and the time are what the system
gives it. -/
def pskReporterStart (receiverCall receiverGrid software : CString) (observationId : UInt32)
    (now : Int) : Option PskReporter :=
  if !validTextLength receiverCall 12 || !validTextLength receiverGrid 6 ||
      !validTextLength software 63 then none
  else some
    { queue := []
      sequence := 0
      observationId := observationId
      packetCount := 0
      templatesLastSent := 0
      nextFlush := now + pskReportFlushSeconds + (observationId % 31).toNat
      stopping := false
      receiverCall := receiverCall
      receiverGrid := receiverGrid
      software := software
      recent := List.replicate 256 ⟨[], 0⟩ }

/-- The loop over the recently sent callsigns. -/
def recentlySent (reporter : PskReporter) (call : CString) (now : Int) : Bool :=
  reporter.recent.any fun entry =>
    entry.key == call && now - entry.stamp < pskReportFlushSeconds

/-- The loop over the queue: the entry of the report's callsign, with the report
in its place if the report is stronger. -/
def replaceWeaker (report : PskReport) : List PskReport → Option (List PskReport)
  | [] => none
  | entry :: entries =>
      if entry.senderCall = report.senderCall then
        some ((if entry.snr < report.snr then report else entry) :: entries)
      else (replaceWeaker report entries).map (entry :: ·)

/-- `psk_reporter_enqueue`: the value it returns and the reporter behind it. A report of a
callsign sent a short time ago is accepted and dropped; one of a callsign in the queue replaces
it there when it is stronger. -/
def pskReporterEnqueue (reporter : PskReporter) (report : PskReport) (now : Int) :
    Bool × PskReporter :=
  if !validReport report then (false, reporter)
  else if recentlySent reporter report.senderCall now then (true, reporter)
  else
    match replaceWeaker report reporter.queue with
    | some queue => (true, {reporter with queue := queue})
    | none =>
        if reporter.count ≥ pskReportQueueCapacity ∨ reporter.stopping then (false, reporter)
        else (true, {reporter with queue := reporter.queue ++ [report]})

/-- `mark_recent`; a callsign is stored cut to twelve characters. -/
def markRecent (recent : List PskRecentSender) (reports : List PskReport) (sentAt : Int) :
    List PskRecentSender :=
  reports.foldl (fun recent report =>
    recent.set (slotFor [] report.senderCall recent) ⟨report.senderCall.take 12, sentAt⟩) recent

/-- The loop of `packet_report_count`, from a number of reports on downwards: the
number returned, the packet buffer and the packet size. -/
def packetReportCountLoop (reporter : PskReporter) (includeTemplates : Bool) (now : Int) :
    (count : Nat) → (packet : List UInt8) → (packetSize : Nat) → Nat × List UInt8 × Nat
  | 0, packet, packetSize => (0, packet, packetSize)
  | count + 1, packet, packetSize =>
      let result := pskReporterBuildPacket packet pskReportPacketCapacity reporter.receiverCall
        reporter.receiverGrid reporter.software (reporter.queue.take (count + 1))
        reporter.sequence reporter.observationId now includeTemplates packetSize
      if result.status ≠ 0 then
        packetReportCountLoop reporter includeTemplates now count result.packet result.packetSize
      else (count + 1, result.packet, result.packetSize)

/-- `packet_report_count` -/
def packetReportCount (reporter : PskReporter) (includeTemplates : Bool)
    (packet : List UInt8) (packetSize : Nat) (now : Int) : Nat × List UInt8 × Nat :=
  packetReportCountLoop reporter includeTemplates now
    (if reporter.count < pskReportImmediateCount then reporter.count else pskReportImmediateCount)
    packet packetSize

/-- Where the reporter thread stands. At `loop` it holds the mutex. -/
inductive ReporterPoint where
  | start
  | loop
  | waiting
  | sending (packetSize reportCount : Nat) (templates : Bool)
  | exited

/-- The reporter, its thread's place in the code and packet buffer, and what the
run has done: the latest time anyone has read, the reports the packet in flight
was built from, and the packets sent with the time recorded for each. -/
structure ReporterRun where
  reporter : PskReporter
  point : ReporterPoint
  packet : List UInt8
  clock : Int
  inFlight : List PskReport
  sent : List (Int × List PskReport)

/-- The run of a reporter that has just been started. The packet buffer on the
thread's stack is not initialised. -/
def reporterRunStart (reporter : PskReporter) (packet : List UInt8) (now : Int) : ReporterRun :=
  ⟨reporter, .start, packet, now, [], []⟩

/-- The thread has to wait. -/
def mustWait (reporter : PskReporter) (now : Int) : Bool :=
  !reporter.stopping && reporter.count < pskReportImmediateCount && now < reporter.nextFlush

/-- The next packet has to carry the template sets. -/
def templatesDue (reporter : PskReporter) (now : Int) : Bool :=
  reporter.packetCount < 3 || now - reporter.templatesLastSent ≥ pskReportTemplateSeconds

/-- The rest of the loop body once the thread does not have to wait, up to the
transport call. -/
def afterWait (s : ReporterRun) (now : Int) : ReporterRun :=
  let reporter := s.reporter
  if reporter.stopping ∨ reporter.count = 0 then
    {s with
      point := .loop
      reporter := if reporter.count = 0 then {reporter with nextFlush := reporter.flushTime now}
        else reporter}
  else
    let templates := templatesDue reporter now
    let (reportCount, packet, packetSize) := packetReportCount reporter templates s.packet 0 now
    if reportCount = 0 then
      {s with point := .loop, packet := packet, reporter := {reporter with
        queue := reporter.queue.drop 1}}
    else
      {s with
        point := .sending packetSize reportCount templates
        packet := packet
        inFlight := reporter.queue.take reportCount}

/-- What the thread makes of the outcome of a transport call. The number of reports is the one
the packet was built from, whatever has come into the queue since. -/
def afterTransport (s : ReporterRun) (reportCount : Nat) (templates : Bool) (sent : Bool)
    (now : Int) : ReporterRun :=
  let reporter := s.reporter
  if !sent then
    {s with
      point := .loop
      inFlight := []
      reporter := {reporter with
        packetCount := 0
        templatesLastSent := 0
        nextFlush := now + pskReportRetrySeconds}}
  else
    {s with
      point := .loop
      inFlight := []
      sent := s.sent ++ [(now, s.inFlight)]
      reporter := {reporter with
        recent := markRecent reporter.recent (reporter.queue.take reportCount) now
        sequence := reporter.sequence + UInt32.ofNat reportCount
        packetCount := reporter.packetCount + 1
        templatesLastSent := if templates then now else reporter.templatesLastSent
        queue := reporter.queue.drop reportCount
        nextFlush := reporter.flushTime now}}

/-- The steps of the program. A time is what `time(NULL)` gives the step; an
enqueue may have read it long before it gets the mutex. -/
inductive ReporterAction where
  | enqueue (report : PskReport) (now : Int)
  | thread (now : Int)
  | transportReturns (sent : Bool) (now : Int)
  | stop

/-- One step of a producer, the thread or the transport. A producer waits while the thread is
between a transport call and its next wait, where it has the mutex. The clock does not run
backwards. -/
def reporterStep (s : ReporterRun) : ReporterAction → Option ReporterRun
  | .enqueue report now =>
      match s.point with
      | .loop => none
      | _ => some {s with
          clock := max s.clock now
          reporter := (pskReporterEnqueue s.reporter report now).2}
  | .thread now =>
      if now < s.clock then none
      else
        let s := {s with clock := now}
        match s.point with
        | .start | .loop =>
            if s.reporter.stopping then some {s with point := .exited}
            else if mustWait s.reporter now then some {s with point := .waiting}
            else some (afterWait s now)
        | .waiting =>
            if mustWait s.reporter now then some {s with point := .waiting}
            else some (afterWait s now)
        | _ => none
  | .transportReturns sent now =>
      if now < s.clock then none
      else
        match s.point with
        | .sending _ reportCount templates =>
            some (afterTransport {s with clock := now} reportCount templates sent now)
        | _ => none
  | .stop =>
      match s.point with
      | .loop => none
      | _ => some {s with reporter := {s.reporter with stopping := true}}

end AirspyhfWsprd.Psk
