import AirspyhfWsprd.Psk.PacketDecoding
import AirspyhfWsprd.Psk.ReporterLoss

/-!
The packets that the reporter thread hands to the transport, over whole runs and as
a collector reads them. The queue is edited while a packet is in flight and the
thread then removes entries by their number, so the callsigns of the packet, the
front of the queue and the sequence counter have to stay together. In these runs
the clock may show any time.
-/

namespace AirspyhfWsprd.Psk

open Library Library.Ipfix

/-- The message in a packet, for a collector that knows the two templates. -/
def packetMessage (packet : List UInt8) : Option Message := decodeMessage 4 learnedTemplates packet

def packetSequence (packet : List UInt8) : Option Nat := (packetMessage packet).map (·.sequence)

/-- The callsigns of the sender records of a set. -/
def setSenders : SetContent → List CString
  | .templates _ => []
  | .data id records =>
      if id = senderTemplateRecord.id then
        records.filterMap fun record => (readSenderRecord record).map (·.senderCall)
      else []

def packetSenders (packet : List UInt8) : List CString :=
  ((packetMessage packet).map fun message => message.sets.flatMap fun set =>
    setSenders set.content).getD []

/-- The packet has both template sets in it. -/
def carriesTemplates (packet : List UInt8) : Bool :=
  (packetMessage packet).any fun message =>
    message.sets.any (fun set => set.content = .templates [receiverTemplateRecord]) &&
      message.sets.any fun set => set.content = .templates [senderTemplateRecord]

theorem filterMap_senders {records : List Record} {reports : List PskReport}
    (hrecords : records.map readSenderRecord =
      reports.map fun report => some (reportReading report)) :
    records.filterMap (fun record => (readSenderRecord record).map (·.senderCall)) =
      calls reports := by
  have hread : records.filterMap (fun record => (readSenderRecord record).map (·.senderCall)) =
      (records.map readSenderRecord).filterMap (Option.map (·.senderCall)) := by
    rw [List.filterMap_map]
    rfl
  rw [hread, hrecords, List.filterMap_map]
  exact congrFun (List.filterMap_eq_map (f := (·.senderCall))) reports

/-- A collector reads the callsigns the packet was built from, the sequence number the
reporter had and whether templates were asked for. -/
theorem BuiltFrom.read {reporter : PskReporter} {reports : List PskReport} {templates : Bool}
    {packet : List UInt8} {packetSize : Nat}
    (hbuilt : BuiltFrom reporter reports templates packet packetSize) :
    packetSequence (packet.take packetSize) = some reporter.sequence.toNat ∧
      packetSenders (packet.take packetSize) = calls reports ∧
      carriesTemplates (packet.take packetSize) = templates := by
  obtain ⟨before, size, now, hresult⟩ := hbuilt
  obtain ⟨message, hmessage, -, hdescribes⟩ := pskReporterBuildPacket_describes
    (if templates then learnedTemplates else []) (congrArg BuildResult.status hresult)
  rw [hresult] at hmessage
  have hknown : (if templates then (if templates then learnedTemplates else [])
      else learnedTemplates ++ if templates then learnedTemplates else []) = learnedTemplates := by
    cases templates <;> rfl
  rw [hknown] at hmessage
  obtain ⟨records, hcontents, hrecords⟩ := hdescribes.contents
  have hsenders : (message.sets.flatMap fun set => setSenders set.content) =
      calls reports := by
    rw [← List.flatMap_map, hcontents]
    have hdata := filterMap_senders hrecords
    cases templates <;> simp [setSenders, senderTemplateRecord, hdata]
  have htemplates (content : SetContent) :
      (message.sets.any fun set => set.content = content) =
        (message.sets.map (·.content)).any (· = content) := by
    rw [List.any_map]
    rfl
  simp only [packetSequence, packetSenders, carriesTemplates, packetMessage, hmessage,
    Option.map_some, Option.getD_some, Option.any_some, hdescribes.sequence_eq, hsenders,
    htemplates, hcontents, true_and]
  cases templates <;> simp [receiverTemplateRecord, senderTemplateRecord]

/-- What passes between the thread and the transport: a packet with the time that was
read before it was built, and the outcome with the time that was read behind it. -/
inductive PacketEvent where
  | handed (packet : List UInt8) (builtAt : Int)
  | returned (packet : List UInt8) (sent : Bool) (now : Int)

/-- A run with the transport's events so far. -/
structure PacketRun where
  run : ReporterRun
  history : List PacketEvent

/-- The event of a step from `s` to `t`. -/
def packetEvents (s : ReporterRun) (a : ReporterAction) (t : ReporterRun) : List PacketEvent :=
  match a, s.point, t.point with
  | .thread now, _, .sending packetSize _ _ => [.handed (t.packet.take packetSize) now]
  | .transportReturns sent now, .sending packetSize _ _, _ =>
      [.returned (s.packet.take packetSize) sent now]
  | _, _, _ => []

/-- A clock that shows whatever time the action reads. -/
def freeClock (s : ReporterRun) : ReporterAction → ReporterRun
  | .thread now | .transportReturns _ now => {s with clock := now}
  | .enqueue _ _ | .stop => s

def packetStep (s : PacketRun) (a : ReporterAction) : Option PacketRun :=
  (reporterStep (freeClock s.run a) a).map fun t => ⟨t, s.history ++ packetEvents s.run a t⟩

def packetRunStart (reporter : PskReporter) (packet : List UInt8) (now : Int) : PacketRun :=
  ⟨reporterRunStart reporter packet now, []⟩

/-- What the transport learns from a step, and that only its outcome changes the
sequence number and what the template decision depends on. -/
inductive PacketEffect (s : PacketRun) : PacketRun → Prop where
  | quiet {t : ReporterRun}
      (hsequence : t.reporter.sequence = s.run.reporter.sequence)
      (hcount : t.reporter.packetCount = s.run.reporter.packetCount)
      (hlast : t.reporter.templatesLastSent = s.run.reporter.templatesLastSent)
      (hpoint : t.point.IsSending → t.point = s.run.point ∧ t.packet = s.run.packet) :
      PacketEffect s ⟨t, s.history⟩
  | handed {t : ReporterRun} {packetSize count : Nat} {now : Int}
      (hreporter : t.reporter = s.run.reporter)
      (hpoint : t.point = .sending packetSize count (templatesDue s.run.reporter now)) :
      PacketEffect s ⟨t, s.history ++ [.handed (t.packet.take packetSize) now]⟩
  | returned {packetSize count : Nat} {templates sent : Bool} {now : Int}
      (hpoint : s.run.point = .sending packetSize count templates) :
      PacketEffect s ⟨afterTransport {s.run with clock := now} count templates sent now,
        s.history ++ [.returned (s.run.packet.take packetSize) sent now]⟩

/-- An enqueue changes nothing but the queue. -/
theorem pskReporterEnqueue_queue (reporter : PskReporter) (report : PskReport) (now : Int) :
    ∃ queue, (pskReporterEnqueue reporter report now).2 = {reporter with queue := queue} := by
  rcases pskReporterEnqueue_cases reporter report now with h | ⟨-, -, h⟩
  · exact ⟨reporter.queue, h⟩
  · rcases h with ⟨before, -, after, -, -, -, h⟩ | ⟨-, -, h⟩
    · exact ⟨_, h⟩
    · exact ⟨_, h⟩

/-- What a step of the reporter does to the history: a packet is handed to the transport, a
call returns, or neither. All later proofs look only at these cases. -/
theorem packetStep_effect {s u : PacketRun} {a : ReporterAction}
    (hstep : packetStep s a = some u) : PacketEffect s u := by
  obtain ⟨t, hrun, rfl⟩ := Option.map_eq_some_iff.mp hstep
  cases a with
  | enqueue report now =>
      obtain ⟨queue, hqueue⟩ := pskReporterEnqueue_queue s.run.reporter report now
      obtain rfl := enqueue_effect hrun
      have hnone (t : ReporterRun) : packetEvents s.run (.enqueue report now) t = [] := rfl
      simp only [freeClock, hqueue, hnone, List.append_nil]
      exact .quiet rfl rfl rfl fun _ => ⟨rfl, rfl⟩
  | thread now =>
      obtain ⟨-, -, heffect⟩ := thread_effect hrun
      cases heffect with
      | quiet point nextFlush hpoint =>
          have hnone : packetEvents s.run (.thread now)
              {s.run with
                clock := now
                point := point
                reporter := {s.run.reporter with nextFlush := nextFlush}} = [] := by
            cases point with
            | sending => exact absurd trivial hpoint
            | start | loop | waiting | exited => rfl
          simp only [freeClock, hnone, List.append_nil]
          exact .quiet rfl rfl rfl fun hsends => absurd hsends hpoint
      | drop hbuilds hcount =>
          simp only [packetEvents, List.append_nil]
          exact .quiet rfl rfl rfl fun hsends => absurd hsends id
      | send hbuilds hcount hpos => exact .handed rfl rfl
  | transportReturns sent now =>
      obtain ⟨-, packetSize, count, templates, hpoint, rfl⟩ := transport_effect hrun
      have hpoint : s.run.point = .sending packetSize count templates := hpoint
      simp only [packetEvents, hpoint]
      exact .returned hpoint
  | stop =>
      obtain rfl := stop_effect hrun
      simp only [packetEvents, List.append_nil]
      exact .quiet rfl rfl rfl fun _ => ⟨rfl, rfl⟩

section Runs

variable {receiverCall receiverGrid software : CString} {observationId : UInt32}
  {startedAt now : Int} {reporter : PskReporter} {packet : List UInt8} {s : PacketRun}

theorem pskReporterStart_counters
    (hstart : pskReporterStart receiverCall receiverGrid software observationId startedAt =
      some reporter) : reporter.sequence = 0 ∧ reporter.packetCount = 0 := by
  rw [pskReporterStart] at hstart
  split at hstart
  · cases hstart
  · cases hstart
    exact ⟨rfl, rfl⟩

/-- The invariant of the queue does not depend on the clock. -/
theorem packetRun_inv
    (hstart : pskReporterStart receiverCall receiverGrid software observationId startedAt =
      some reporter)
    (hs : Reachable packetStep anyStep (packetRunStart reporter packet now) s) :
    ReporterInv s.run := by
  obtain ⟨hstrings, hempty, -⟩ := pskReporterStart_valid hstart
  have hinv : ∀ s, Reachable packetStep anyStep (packetRunStart reporter packet now) s →
      ReporterInv s.run := by
    refine Reachable.invariant (reporterRunStart_inv hstrings hempty packet now) ?_
    intro s a u _ hinv _ hstep
    obtain ⟨t, hrun, rfl⟩ := Option.map_eq_some_iff.mp hstep
    refine reporterStep_inv ?_ hrun
    obtain ⟨hstrings, hvalid, hdistinct, hroom, hidle, hfront, hflight⟩ := hinv
    cases a <;> exact ⟨hstrings, hvalid, hdistinct, hroom, hidle, hfront, hflight⟩
  exact hinv s hs

end Runs

/-- The sender records in the packets that were sent. -/
def sendersSent (history : List PacketEvent) : Nat :=
  (history.map fun
    | .returned packet true _ => (packetSenders packet).length
    | .returned _ false _ | .handed _ _ => 0).sum

/-- A packet's sequence number counts the sender records sent before it. -/
def SequenceFollows (before : List PacketEvent) : PacketEvent → Prop
  | .handed packet _ => packetSequence packet = some (sendersSent before % 2 ^ 32)
  | .returned _ _ _ => True

/-- What a packet in flight says about the queue, and what an outcome does to it. -/
structure QueueMatches (s : PacketRun) : Prop where
  distinct : (calls s.run.reporter.queue).Nodup
  room : s.run.reporter.count ≤ pskReportQueueCapacity
  front : ∀ packetSize count templates, s.run.point = .sending packetSize count templates →
    count ≤ s.run.reporter.count ∧
      calls (s.run.reporter.queue.take count) = packetSenders (s.run.packet.take packetSize)
  failed : ∀ now t, packetStep s (.transportReturns false now) = some t →
    t.run.reporter.queue = s.run.reporter.queue
  sent : ∀ now t, packetStep s (.transportReturns true now) = some t →
    ∃ packet, t.history = s.history ++ [.returned packet true now] ∧
      t.run.reporter.queue = s.run.reporter.queue.drop (packetSenders packet).length ∧
      calls s.run.reporter.queue = packetSenders packet ++ calls t.run.reporter.queue
  sequence : EachAfter SequenceFollows s.history

structure SequenceInv (s : PacketRun) : Prop where
  counts : s.run.reporter.sequence.toNat = sendersSent s.history % 2 ^ 32
  follows : EachAfter SequenceFollows s.history

/-- While a packet is in flight the front of the queue has the packet's callsigns in the
packet's order, as many as the thread will remove. -/
theorem ReporterInv.front_senders {s : ReporterRun} (hinv : ReporterInv s)
    {packetSize count : Nat} {templates : Bool}
    (hpoint : s.point = .sending packetSize count templates) :
    count = (packetSenders (s.packet.take packetSize)).length ∧ count ≤ s.reporter.count ∧
      calls (s.reporter.queue.take count) = packetSenders (s.packet.take packetSize) := by
  obtain ⟨hcount, -, hbuilt⟩ := hinv.flight packetSize count templates hpoint
  obtain ⟨-, hsenders, -⟩ := hbuilt.read
  have hlength : (calls s.inFlight).length = count := by
    rw [hcount, calls, List.length_map]
  have hle := hinv.front.length_le
  rw [hlength, calls, List.length_map] at hle
  refine ⟨by rw [hsenders, hlength], hle, ?_⟩
  rw [hsenders, calls, List.map_take, ← hlength]
  exact (List.prefix_iff_eq_take.mp hinv.front).symm

theorem sendersSent_concat (history : List PacketEvent) (packet : List UInt8) (sent : Bool)
    (now : Int) : sendersSent (history ++ [.returned packet sent now]) =
      sendersSent history + if sent then (packetSenders packet).length else 0 := by
  cases sent <;> simp [sendersSent]

/-- The sequence counter is the number of reports sent so far, modulo 2^32, and each packet
handed over carries the counter that follows from those before it. Only a transport call that
succeeds moves it. -/
theorem packetStep_sequence {s u : PacketRun} {a : ReporterAction} (hqueue : ReporterInv s.run)
    (hqueue' : ReporterInv u.run) (hinv : SequenceInv s) (hstep : packetStep s a = some u) :
    SequenceInv u := by
  obtain ⟨hcounts, hfollows⟩ := hinv
  cases packetStep_effect hstep with
  | quiet hsequence hcount hlast hpoint =>
      refine ⟨?_, hfollows⟩
      rw [hsequence, hcounts]
  | @handed t packetSize count now hreporter hpoint =>
      obtain ⟨-, -, hbuilt⟩ := hqueue'.flight packetSize count _ hpoint
      obtain ⟨hsequence, -, -⟩ := hbuilt.read
      refine ⟨?_, hfollows.concat ?_⟩
      · rw [hreporter, hcounts]
        simp [sendersSent]
      · rw [SequenceFollows, hsequence, hreporter, hcounts]
  | @returned packetSize count templates sent now hpoint =>
      refine ⟨?_, hfollows.concat trivial⟩
      obtain ⟨hcount, -, -⟩ := hqueue.front_senders hpoint
      rw [sendersSent_concat, ← hcount]
      cases sent with
      | false => exact hcounts
      | true =>
          have hsequence : (s.run.reporter.sequence + UInt32.ofNat count).toNat =
              (sendersSent s.history + count) % 2 ^ 32 := by
            rw [UInt32.toNat_add, UInt32.toNat_ofNat', hcounts]
            omega
          exact hsequence

/-- In every run the callsigns in the queue are distinct, the packet in flight has the
callsigns at its front, a sent packet takes just these away, and the sequence number of a
packet counts the sender records sent before it. A report may be strengthened while its packet
is in flight; this changes no callsign and no place. -/
theorem packets_match_queue {receiverCall receiverGrid software : CString}
    {observationId : UInt32} {startedAt : Int} {reporter : PskReporter}
    (hstart : pskReporterStart receiverCall receiverGrid software observationId startedAt =
      some reporter) {packet : List UInt8} {now : Int} {s : PacketRun}
    (hs : Reachable packetStep anyStep (packetRunStart reporter packet now) s) :
    QueueMatches s := by
  have hsequence := (pskReporterStart_counters hstart).1
  have hqueue : ∀ s, Reachable packetStep anyStep (packetRunStart reporter packet now) s →
      ReporterInv s.run := fun _ hs => packetRun_inv hstart hs
  have hinv : ∀ s, Reachable packetStep anyStep (packetRunStart reporter packet now) s →
      SequenceInv s :=
    Reachable.invariant ⟨congrArg UInt32.toNat hsequence, eachAfter_nil⟩
      fun s a u hs hinv _ hstep =>
        packetStep_sequence (hqueue s hs) (hqueue u (hs.next trivial hstep)) hinv hstep
  refine ⟨(hqueue s hs).distinct, (hqueue s hs).room, ?_, ?_, ?_, (hinv s hs).follows⟩
  · exact fun packetSize count templates hpoint => ((hqueue s hs).front_senders hpoint).2
  · intro now t hstep
    obtain ⟨run, hrun, rfl⟩ := Option.map_eq_some_iff.mp hstep
    obtain ⟨-, -, -, -, -, rfl⟩ := transport_effect hrun
    rfl
  · intro now t hstep
    obtain ⟨run, hrun, rfl⟩ := Option.map_eq_some_iff.mp hstep
    obtain ⟨-, packetSize, count, templates, hpoint, rfl⟩ := transport_effect hrun
    have hpoint : s.run.point = .sending packetSize count templates := hpoint
    obtain ⟨hcount, -, hfront⟩ := (hqueue s hs).front_senders hpoint
    refine ⟨s.run.packet.take packetSize, ?_, ?_, ?_⟩
    · simp only [packetEvents, hpoint]
    · rw [← hcount]
      rfl
    · rw [← hfront]
      exact (List.map_append.symm.trans
        (congrArg calls (List.take_append_drop count s.run.reporter.queue))).symm

/-- A packet with two reports fails and is sent again with a third one; the next packet
is in flight. -/
def resentActions : List ReporterAction :=
  [.enqueue (spot (bytes "K1TE") (-10)) 1, .enqueue (spot (bytes "G8VDQ") 5) 2, .thread 400,
    .enqueue (spot (bytes "N0CALL/P") 3) 401, .transportReturns false 402, .thread 470,
    .transportReturns true 480, .thread 481, .enqueue (spot (bytes "ND6P") 7) 482, .thread 900]

theorem resentActions_run :
    (execute packetStep (packetRunStart exampleReporter [] 0) resentActions).isSome = true := by
  decide +kernel

/-- A packet that fails is sent once more, together with a report that came in while it was
away. -/
theorem resent_matches_queue : QueueMatches
    ((execute packetStep (packetRunStart exampleReporter [] 0) resentActions).get
      resentActions_run) :=
  packets_match_queue (Option.some_get exampleReporter_starts).symm
    (.get_execute resentActions (allAllowed_anyStep _ _ _) resentActions_run)

/-- With a clock past 1970, the first attempt to build a packet succeeds and the thread
drops nothing; every packet fits its buffer. -/
structure BuildsAtOnce (s : PacketRun) : Prop where
  first : ∀ templates packet packetSize now, s.run.reporter.queue ≠ [] → 0 ≤ now →
    (firstBuild s.run.reporter templates packet packetSize now).status = 0 ∧
      (firstBuild s.run.reporter templates packet packetSize now).packetSize ≤
        pskReportPacketCapacity ∧
      packetReportCount s.run.reporter templates packet packetSize now =
        (min s.run.reporter.count pskReportImmediateCount,
          (firstBuild s.run.reporter templates packet packetSize now).packet,
          (firstBuild s.run.reporter templates packet packetSize now).packetSize)
  kept : ∀ now t, 0 ≤ now → packetStep s (.thread now) = some t →
    t.run.reporter.queue = s.run.reporter.queue
  fits : ∀ packetSize count templates, s.run.point = .sending packetSize count templates →
    packetSize ≤ pskReportPacketCapacity

/-- Under the invariant the thread drops no report. -/
theorem thread_keeps_queue {s t : ReporterRun} (hinv : ReporterInv s) {now : Int}
    (hnow : 0 ≤ now) (heffect : ThreadEffect s now t) :
    t.reporter.queue = s.reporter.queue := by
  cases heffect with
  | quiet point nextFlush hpoint => rfl
  | drop hbuilds hcount =>
      have hne : s.reporter.queue ≠ [] := by
        intro hempty
        simp [buildsPacket, PskReporter.count, hempty] at hbuilds
      obtain ⟨-, hfirst⟩ := firstBuild_succeeds hinv.strings hinv.valid hne hnow
        (templatesDue s.reporter now) s.packet 0
      rw [hcount] at hfirst
      have hzero : 0 = min s.reporter.count pskReportImmediateCount :=
        congrArg Prod.fst hfirst
      have hpos : 0 < s.reporter.count := List.length_pos_iff.mpr hne
      have himmediate : pskReportImmediateCount = 40 := rfl
      omega
  | send hbuilds hcount hpos => rfl

/-- Nothing that was accepted into the queue is ever discarded as impossible to encode: the
strings of a report have bounds when it is accepted, and forty of the longest records fit into
a packet with the templates. -/
theorem reports_always_encodable {receiverCall receiverGrid software : CString}
    {observationId : UInt32} {startedAt : Int} {reporter : PskReporter}
    (hstart : pskReporterStart receiverCall receiverGrid software observationId startedAt =
      some reporter) {packet : List UInt8} {now : Int} {s : PacketRun}
    (hs : Reachable packetStep anyStep (packetRunStart reporter packet now) s) :
    BuildsAtOnce s := by
  have hinv := packetRun_inv hstart hs
  refine ⟨?_, ?_, ?_⟩
  · intro templates packet packetSize now hne hnow
    obtain ⟨hstatus, hcount⟩ :=
      firstBuild_succeeds hinv.strings hinv.valid hne hnow templates packet packetSize
    refine ⟨hstatus, ?_, hcount⟩
    have hpos : min s.run.reporter.count pskReportImmediateCount ≠ 0 := by
      have hlength : 0 < s.run.reporter.count := List.length_pos_iff.mpr hne
      have himmediate : pskReportImmediateCount = 40 := rfl
      omega
    obtain ⟨-, -, hbuilt⟩ :=
      packetReportCount_spec s.run.reporter templates packet packetSize now
    rw [hcount] at hbuilt
    exact (hbuilt hpos).size_le
  · intro now t hnow hstep
    obtain ⟨run, hrun, rfl⟩ := Option.map_eq_some_iff.mp hstep
    obtain ⟨-, -, heffect⟩ := thread_effect hrun
    obtain ⟨hstrings, hvalid, hdistinct, hroom, hidle, hfront, hflight⟩ := hinv
    exact thread_keeps_queue (s := {s.run with clock := now})
      ⟨hstrings, hvalid, hdistinct, hroom, hidle, hfront, hflight⟩ hnow heffect
  · intro packetSize count templates hpoint
    exact (hinv.flight packetSize count templates hpoint).2.2.size_le

/-- The same run: its last packet is in flight. -/
theorem resent_encodable : BuildsAtOnce
    ((execute packetStep (packetRunStart exampleReporter [] 0) resentActions).get
      resentActions_run) :=
  reports_always_encodable (Option.some_get exampleReporter_starts).symm
    (.get_execute resentActions (allAllowed_anyStep _ _ _) resentActions_run)

end AirspyhfWsprd.Psk
