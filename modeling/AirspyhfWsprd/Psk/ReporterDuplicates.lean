import AirspyhfWsprd.Psk.ReporterLoss

/-!
Duplicate suppression. A callsign that was just sent is refused for five minutes
because the table of recent senders holds it. The table has 256 entries and gives
up its oldest one when it is full, so the suppression lasts as long as no more
than 256 senders are that young.
-/

namespace AirspyhfWsprd.Psk

open Library

/-- The callsigns of the packet in flight and of all packets sent less than five
minutes before this time. -/
def youngSenders (s : ReporterRun) (now : Int) : Finset CString :=
  ((s.sent.filter fun packet => now - pskReportFlushSeconds < packet.1).flatMap
    (fun packet => calls packet.2) ++ calls s.inFlight).toFinset

/-- The condition on the steps of a run: whenever a packet has been sent, its
senders and the other young ones fit into the table. -/
def SendersFit (s : ReporterRun) : ReporterAction → Prop
  | .transportReturns true now => (youngSenders s now).card ≤ 256
  | _ => True

instance (s : ReporterRun) : (a : ReporterAction) → Decidable (SendersFit s a)
  | .transportReturns true now => inferInstanceAs (Decidable ((youngSenders s now).card ≤ 256))
  | .transportReturns false _ => isTrue trivial
  | .enqueue _ _ => isTrue trivial
  | .thread _ => isTrue trivial
  | .stop => isTrue trivial

/-- Two packets with the same callsign in them were sent at least five minutes
apart. -/
def SendsSpaced (s : ReporterRun) : Prop :=
  s.sent.Pairwise fun earlier later =>
    ∀ call ∈ calls earlier.2, call ∈ calls later.2 →
      earlier.1 + pskReportFlushSeconds ≤ later.1

structure SentInv (s : ReporterRun) : Prop where
  packed : Packed [] s.reporter.recent
  size : s.reporter.recent.length = 256
  named : ∀ packet ∈ s.sent, ∀ call ∈ calls packet.2, call ≠ []
  past : ∀ packet ∈ s.sent, packet.1 ≤ s.clock
  recorded : ∀ entry ∈ s.reporter.recent, entry.key ≠ [] →
    ∃ packet ∈ s.sent, packet.1 = entry.stamp ∧ entry.key ∈ calls packet.2
  kept : ∀ packet ∈ s.sent, ∀ call ∈ calls packet.2,
    s.clock < packet.1 + pskReportFlushSeconds →
      ∃ entry ∈ s.reporter.recent, entry.key = call ∧ packet.1 ≤ entry.stamp
  rested : ∀ packet ∈ s.sent, ∀ call ∈ calls packet.2, call ∈ calls s.reporter.queue →
    packet.1 + pskReportFlushSeconds ≤ s.clock
  spaced : SendsSpaced s

/-- At the start the table of recent senders is empty, and nothing has been sent. -/
theorem reporterRunStart_sentInv {reporter : PskReporter}
    (hrecent : reporter.recent = List.replicate 256 ⟨[], 0⟩) (packet : List UInt8) (now : Int) :
    SentInv (reporterRunStart reporter packet now) where
  packed := ⟨[], 256, 0, hrecent, List.nodup_nil, fun _ h => nomatch h⟩
  size := (congrArg List.length hrecent).trans List.length_replicate
  named := fun _ h => nomatch h
  past := fun _ h => nomatch h
  recorded := by
    intro entry hentry hused
    rw [reporterRunStart, hrecent] at hentry
    exact absurd (congrArg Stamped.key (List.eq_of_mem_replicate hentry)) hused
  kept := fun _ h => nomatch h
  rested := fun _ h => nomatch h
  spaced := List.Pairwise.nil

theorem validReport_call {report : PskReport} (hvalid : validReport report = true) :
    report.senderCall ≠ [] ∧ report.senderCall.take 12 = report.senderCall := by
  simp only [validReport, validTextLength, Bool.and_eq_true, bne_iff_ne, ne_eq,
    decide_eq_true_eq] at hvalid
  exact ⟨hvalid.1.1.1, List.take_of_length_le hvalid.1.1.2⟩

theorem markRecent_eq {reports : List PskReport}
    (hvalid : ∀ report ∈ reports, validReport report = true) (recent : List PskRecentSender)
    (sentAt : Int) :
    markRecent recent reports sentAt = recordAll [] sentAt recent (calls reports) := by
  induction reports generalizing recent with
  | nil => rfl
  | cons report reports ih =>
      have htake := (validReport_call (hvalid report List.mem_cons_self)).2
      have hrest := ih fun r hr => hvalid r (List.mem_cons_of_mem _ hr)
      simp only [markRecent, List.foldl_cons, htake] at hrest ⊢
      rw [hrest]
      rfl

section Step

variable {s t : ReporterRun}

/-- An enqueue touches neither the table of recent senders nor what has been sent. It adds a
sender only when the table does not hold it within its five minutes. -/
theorem enqueue_sentInv (hinv : SentInv s) {report : PskReport} {now : Int}
    (hstep : reporterStep s (.enqueue report now) = some t) : SentInv t := by
  obtain ⟨hpacked, hsize, hnamed, hpast, hrecorded, hkept, hrested, hspaced⟩ := hinv
  rw [enqueue_effect hstep]
  have hpast' : ∀ packet ∈ s.sent, packet.1 ≤ max s.clock now :=
    fun packet h => le_max_of_le_left (hpast packet h)
  have hkept' : ∀ packet ∈ s.sent, ∀ call ∈ calls packet.2,
      max s.clock now < packet.1 + pskReportFlushSeconds →
        ∃ entry ∈ s.reporter.recent, entry.key = call ∧ packet.1 ≤ entry.stamp :=
    fun packet h call hcall hyoung =>
      hkept packet h call hcall (lt_of_le_of_lt (le_max_left _ _) hyoung)
  have hrested' : ∀ packet ∈ s.sent, ∀ call ∈ calls packet.2, call ∈ calls s.reporter.queue →
      packet.1 + pskReportFlushSeconds ≤ max s.clock now :=
    fun packet h call hcall hqueued => le_max_of_le_left (hrested packet h call hcall hqueued)
  rcases pskReporterEnqueue_cases s.reporter report now with h | ⟨-, hrecent, h⟩
  · rw [h]
    exact ⟨hpacked, hsize, hnamed, hpast', hrecorded, hkept', hrested', hspaced⟩
  rcases h with ⟨before, entry, after, hqueue, hsame, -, h⟩ | ⟨-, -, h⟩
  · have hcalls : calls (before ++ report :: after) = calls s.reporter.queue := by
      rw [hqueue, calls, calls, List.map_append, List.map_append, List.map_cons, List.map_cons,
        hsame]
    rw [h]
    exact ⟨hpacked, hsize, hnamed, hpast', hrecorded, hkept', by rwa [hcalls], hspaced⟩
  · rw [h]
    refine ⟨hpacked, hsize, hnamed, hpast', hrecorded, hkept', ?_, hspaced⟩
    intro packet hpacket call hcall hqueued
    rw [calls, List.map_append, List.map_cons, List.map_nil] at hqueued
    rcases List.mem_append.mp hqueued with hqueued | hqueued
    · exact hrested' packet hpacket call hcall hqueued
    obtain rfl := List.mem_singleton.mp hqueued
    -- A younger packet would have left an entry that refuses the report.
    change packet.1 + pskReportFlushSeconds ≤ max s.clock now
    by_contra hyoung
    obtain ⟨entry, hentry, hkey, hstamp⟩ :=
      hkept' packet hpacket _ hcall (Int.not_le.mp hyoung)
    have hold : ¬ now - entry.stamp < pskReportFlushSeconds := by
      intro hlt
      have hfound : recentlySent s.reporter report.senderCall now = true :=
        List.any_eq_true.mpr ⟨entry, hentry, by simp [hkey, hlt]⟩
      rw [hrecent] at hfound
      cases hfound
    omega

/-- What the thread does before the transport call changes only the queue's head, the packet
and the times, never the table. -/
theorem thread_sentInv (hinv : SentInv s) {now : Int}
    (hstep : reporterStep s (.thread now) = some t) : SentInv t := by
  obtain ⟨hpacked, hsize, hnamed, hpast, hrecorded, hkept, hrested, hspaced⟩ := hinv
  obtain ⟨hclock, -, heffect⟩ := thread_effect hstep
  have hpast' : ∀ packet ∈ s.sent, packet.1 ≤ now :=
    fun packet h => Int.le_trans (hpast packet h) hclock
  have hkept' : ∀ packet ∈ s.sent, ∀ call ∈ calls packet.2,
      now < packet.1 + pskReportFlushSeconds →
        ∃ entry ∈ s.reporter.recent, entry.key = call ∧ packet.1 ≤ entry.stamp :=
    fun packet h call hcall hyoung => hkept packet h call hcall (Int.lt_of_le_of_lt hclock hyoung)
  have hrested' : ∀ packet ∈ s.sent, ∀ call ∈ calls packet.2, call ∈ calls s.reporter.queue →
      packet.1 + pskReportFlushSeconds ≤ now :=
    fun packet h call hcall hqueued =>
      Int.le_trans (hrested packet h call hcall hqueued) hclock
  cases heffect with
  | quiet => exact ⟨hpacked, hsize, hnamed, hpast', hrecorded, hkept', hrested', hspaced⟩
  | drop =>
      refine ⟨hpacked, hsize, hnamed, hpast', hrecorded, hkept', ?_, hspaced⟩
      intro packet hpacket call hcall hqueued
      exact hrested' packet hpacket call hcall
        (((List.drop_sublist 1 _).map _).subset hqueued)
  | send => exact ⟨hpacked, hsize, hnamed, hpast', hrecorded, hkept', hrested', hspaced⟩

/-- The packet in flight holds the reports at the front of the queue. -/
theorem flight_calls (hqueue : ReporterInv s) {packetSize count : Nat} {templates : Bool}
    (hpoint : s.point = .sending packetSize count templates) :
    calls (s.reporter.queue.take count) = calls s.inFlight := by
  have hcount := (hqueue.flight packetSize count templates hpoint).1
  have h := (List.prefix_iff_eq_take.mp hqueue.front).symm
  rw [calls, calls, List.length_map, ← hcount, ← List.map_take] at h
  exact h

/-- None of the reports behind them is from a sender of the packet. -/
theorem flight_rest (hqueue : ReporterInv s) {packetSize count : Nat} {templates : Bool}
    (hpoint : s.point = .sending packetSize count templates) :
    ∀ call ∈ calls (s.reporter.queue.drop count),
      call ∈ calls s.reporter.queue ∧ call ∉ calls s.inFlight := by
  intro call hcall
  refine ⟨((List.drop_sublist _ _).map _).subset hcall, fun hsent => ?_⟩
  have hsplit : calls s.reporter.queue =
      calls s.inFlight ++ calls (s.reporter.queue.drop count) := by
    rw [← flight_calls hqueue hpoint, calls, calls, calls, ← List.map_append,
      List.take_append_drop]
  have hdistinct := hqueue.distinct
  rw [hsplit, List.nodup_append] at hdistinct
  exact hdistinct.2.2 call hsent call hcall rfl

theorem flight_named (hqueue : ReporterInv s) : ∀ call ∈ calls s.inFlight, call ≠ [] := by
  intro call hcall
  obtain ⟨report, hreport, rfl⟩ := List.mem_map.mp (hqueue.front.subset hcall)
  exact (validReport_call (hqueue.valid report hreport)).1

/-- The table of recent senders records the callsigns of the packet. -/
theorem flight_marked (hqueue : ReporterInv s) {packetSize count : Nat} {templates : Bool}
    (hpoint : s.point = .sending packetSize count templates) (now : Int) :
    (afterTransport {s with clock := now} count templates true now).reporter.recent =
      recordAll [] now s.reporter.recent (calls s.inFlight) := by
  rw [← flight_calls hqueue hpoint]
  exact markRecent_eq (fun r hr => hqueue.valid r (List.mem_of_mem_take hr)) _ _

theorem flight_young (s : ReporterRun) (now : Int) :
    ∀ call ∈ calls s.inFlight, call ∈ youngSenders s now :=
  fun _ hcall => List.mem_toFinset.mpr (List.mem_append_right _ hcall)

/-- What the table holds of less than five minutes ago is from young senders. -/
theorem SentInv.entry_young (hinv : SentInv s) (now : Int) :
    ∀ entry ∈ s.reporter.recent, entry.key ≠ [] →
      now - pskReportFlushSeconds < entry.stamp → entry.key ∈ youngSenders s now := by
  intro entry hentry hused hage
  obtain ⟨packet, hpacket, hstamp, hcall⟩ := hinv.recorded entry hentry hused
  refine List.mem_toFinset.mpr (List.mem_append_left _ (List.mem_flatMap.mpr
    ⟨packet, List.mem_filter.mpr ⟨hpacket, ?_⟩, hcall⟩))
  rw [hstamp]
  exact decide_eq_true hage

theorem SentInv.entry_past (hinv : SentInv s) :
    ∀ entry ∈ s.reporter.recent, entry.key ≠ [] → entry.stamp ≤ s.clock := by
  intro entry hentry hused
  obtain ⟨packet, hpacket, hstamp, -⟩ := hinv.recorded entry hentry hused
  exact hstamp ▸ hinv.past packet hpacket

theorem SentInv.recent_ne_nil (hinv : SentInv s) : s.reporter.recent ≠ [] := by
  rw [← List.length_pos_iff, hinv.size]
  decide

/-- While the young senders fit, recording the packet forgets none of them. -/
theorem flight_kept (hqueue : ReporterInv s) (hinv : SentInv s) {now : Int}
    (hclock : s.clock ≤ now) (hfit : (youngSenders s now).card ≤ 256) :
    ∀ packet ∈ s.sent ++ [(now, s.inFlight)], ∀ call ∈ calls packet.2,
      now < packet.1 + pskReportFlushSeconds →
        ∃ entry ∈ recordAll [] now s.reporter.recent (calls s.inFlight),
          entry.key = call ∧ packet.1 ≤ entry.stamp := by
  have hfresh := flight_named hqueue
  have hself := flight_young s now
  have hyoung := hinv.entry_young now
  have hroom : (youngSenders s now).card ≤ s.reporter.recent.length := hinv.size ▸ hfit
  have hlimit : now - pskReportFlushSeconds < now := by
    have : pskReportFlushSeconds = 300 := rfl
    omega
  refine List.forall_mem_append.mpr ⟨?_, List.forall_mem_singleton.mpr ?_⟩
  · intro packet hpacket call hcall hage
    obtain ⟨entry, hentry, rfl, hstamp⟩ :=
      hinv.kept packet hpacket call hcall (Int.lt_of_le_of_lt hclock hage)
    have hused := hinv.named packet hpacket _ hcall
    have hstill : now - pskReportFlushSeconds < entry.stamp := by omega
    have hpast := Int.le_trans (hinv.entry_past entry hentry hused) hclock
    obtain ⟨kept, hmem, hkey, hle⟩ := recordAll_keeps hinv.packed hfresh hlimit hroom hyoung hself
      hentry hused hstill hpast
    exact ⟨kept, hmem, hkey, Int.le_trans hstamp hle⟩
  · intro call hcall _
    exact recordAll_records hinv.packed hinv.recent_ne_nil hfresh hlimit hroom hyoung hself hcall

/-- After a successful call the senders of the packet are recorded, each in its own entry or in
the oldest one. None of the entries given up is younger than five minutes as long as the young
senders fit into the table. -/
theorem transport_sentInv (hqueue : ReporterInv s) (hinv : SentInv s) {sent : Bool} {now : Int}
    (hfit : SendersFit s (.transportReturns sent now))
    (hstep : reporterStep s (.transportReturns sent now) = some t) : SentInv t := by
  obtain ⟨hclock, packetSize, count, templates, hpoint, rfl⟩ := transport_effect hstep
  have hpast : ∀ packet ∈ s.sent, packet.1 ≤ now :=
    fun packet h => Int.le_trans (hinv.past packet h) hclock
  have hrested : ∀ packet ∈ s.sent, ∀ call ∈ calls packet.2, call ∈ calls s.reporter.queue →
      packet.1 + pskReportFlushSeconds ≤ now :=
    fun packet h call hcall hqueued => Int.le_trans (hinv.rested packet h call hcall hqueued) hclock
  cases sent with
  | false =>
      refine ⟨hinv.packed, hinv.size, hinv.named, hpast, hinv.recorded, ?_, hrested, hinv.spaced⟩
      exact fun packet h call hcall hyoung =>
        hinv.kept packet h call hcall (Int.lt_of_le_of_lt hclock hyoung)
  | true =>
      have hmark := flight_marked hqueue hpoint now
      have hfresh := flight_named hqueue
      have hrest := flight_rest hqueue hpoint
      refine ⟨?_, ?_, ?_, ?_, ?_, ?_, ?_, ?_⟩
      · rw [hmark]
        exact recordAll_packed _ hinv.packed hinv.recent_ne_nil hfresh
      · rw [hmark, recordAll_length]
        exact hinv.size
      · exact List.forall_mem_append.mpr ⟨hinv.named, List.forall_mem_singleton.mpr hfresh⟩
      · exact List.forall_mem_append.mpr
          ⟨hpast, List.forall_mem_singleton.mpr (Int.le_refl now)⟩
      · rw [hmark]
        intro entry hentry hused
        rcases mem_recordAll hentry with hold | ⟨hcall, hstamp⟩
        · obtain ⟨packet, hpacket, h⟩ := hinv.recorded entry hold hused
          exact ⟨packet, List.mem_append_left _ hpacket, h⟩
        · exact ⟨(now, s.inFlight), List.mem_append_right _ List.mem_cons_self, hstamp.symm, hcall⟩
      · rw [hmark]
        exact flight_kept hqueue hinv hclock hfit
      · refine List.forall_mem_append.mpr ⟨?_, List.forall_mem_singleton.mpr ?_⟩
        · exact fun packet h call hcall hqueued =>
            hrested packet h call hcall (hrest call hqueued).1
        · exact fun call hcall hqueued => absurd hcall (hrest call hqueued).2
      · refine List.pairwise_append.mpr ⟨hinv.spaced, List.pairwise_singleton _ _, ?_⟩
        intro packet hpacket later hlater call hcall hagain
        obtain rfl := List.mem_singleton.mp hlater
        exact hrested packet hpacket call hcall (hqueue.front.subset hagain)

theorem stop_sentInv (hinv : SentInv s) (hstep : reporterStep s .stop = some t) : SentInv t := by
  obtain ⟨hpacked, hsize, hnamed, hpast, hrecorded, hkept, hrested, hspaced⟩ := hinv
  rw [stop_effect hstep]
  exact ⟨hpacked, hsize, hnamed, hpast, hrecorded, hkept, hrested, hspaced⟩

theorem reporterStep_sentInv (hqueue : ReporterInv s) (hinv : SentInv s) {a : ReporterAction}
    (hfit : SendersFit s a) (hstep : reporterStep s a = some t) : SentInv t := by
  cases a with
  | enqueue report now => exact enqueue_sentInv hinv hstep
  | thread now => exact thread_sentInv hinv hstep
  | transportReturns sent now => exact transport_sentInv hqueue hinv hfit hstep
  | stop => exact stop_sentInv hinv hstep

end Step

/-- No callsign is sent twice within five minutes in a run in which the young senders always
fit into the table: an entry is then replaced only when it is older than that, so a sender that
is not in the table was not sent for as long. -/
theorem sends_spaced_when_senders_fit {receiverCall receiverGrid software : CString}
    {observationId : UInt32} {now : Int} {reporter : PskReporter}
    (hstart : pskReporterStart receiverCall receiverGrid software observationId now =
      some reporter) (packet : List UInt8) {s : ReporterRun}
    (hs : Reachable reporterStep SendersFit (reporterRunStart reporter packet now) s) :
    SendsSpaced s := by
  obtain ⟨hstrings, hempty, hrecent⟩ := pskReporterStart_valid hstart
  have hqueue : ∀ s, Reachable reporterStep SendersFit (reporterRunStart reporter packet now) s →
      ReporterInv s :=
    Reachable.invariant (reporterRunStart_inv hstrings hempty packet now)
      fun _ _ _ _ hinv _ hstep => reporterStep_inv hinv hstep
  have hinv : SentInv s :=
    Reachable.invariant (reporterRunStart_sentInv hrecent packet now)
      (fun s _ _ hs hinv hfit hstep => reporterStep_sentInv (hqueue s hs) hinv hfit hstep) s hs
  exact hinv.spaced

/-- One callsign is sent again after five minutes. -/
def sentAgainActions : List ReporterAction :=
  [.enqueue (spot (bytes "K1TE") (-10)) 1, .thread 1000, .transportReturns true 1001, .thread 1001,
    .enqueue (spot (bytes "K1TE") 5) 1301, .thread 1400, .transportReturns true 1401]

theorem sentAgainActions_run :
    (execute reporterStep (reporterRunStart exampleReporter [] 0) sentAgainActions).isSome =
      true := by
  decide +kernel

/-- One sender is sent, heard again five minutes later, and sent again. -/
theorem sentAgain_spaced : SendsSpaced
    ((execute reporterStep (reporterRunStart exampleReporter [] 0) sentAgainActions).get
      sentAgainActions_run) :=
  sends_spaced_when_senders_fit (Option.some_get exampleReporter_starts).symm []
    (.get_execute sentAgainActions (by decide +kernel) sentAgainActions_run)

/-- The reporter between two packets, with nothing to send. -/
structure Idle (s : ReporterRun) (now : Int) : Prop where
  point : s.point = .start ∨ s.point = .waiting
  queue : s.reporter.queue = []
  running : s.reporter.stopping = false
  strings : ValidStrings s.reporter
  clock : s.clock = now

section Burst

variable {start s : ReporterRun} {now : Int}

/-- A valid report whose sender is neither queued nor in the table is appended to the queue. -/
theorem enqueue_fresh {reporter : PskReporter} {report : PskReport} (now : Int)
    (hvalid : validReport report = true) (hrunning : reporter.stopping = false)
    (hroom : reporter.queue.length < pskReportQueueCapacity)
    (hqueue : report.senderCall ∉ calls reporter.queue)
    (hrecent : report.senderCall ∉ reporter.recent.map (·.key)) :
    (pskReporterEnqueue reporter report now).2 =
      {reporter with queue := reporter.queue ++ [report]} := by
  have hold : recentlySent reporter report.senderCall now = false := by
    rw [recentlySent, List.any_eq_false]
    intro entry hentry hfound
    rw [Bool.and_eq_true, beq_iff_eq] at hfound
    exact hrecent (hfound.1 ▸ List.mem_map_of_mem hentry)
  have hfull : ¬ reporter.count ≥ pskReportQueueCapacity := Nat.not_le.mpr hroom
  simp [pskReporterEnqueue, hvalid, hold, replaceWeaker_none.mpr hqueue, hfull, hrunning]

/-- A burst of reports of new senders is queued as a whole, one enqueue after the other, while
the thread waits. -/
theorem enqueue_all_fresh {reports : List PskReport}
    (hvalid : ∀ report ∈ reports, validReport report = true)
    (hs : Reachable reporterStep anyStep start s)
    (hpoint : s.point = .start ∨ s.point = .waiting) (hrunning : s.reporter.stopping = false)
    (hclock : s.clock = now)
    (hroom : s.reporter.queue.length + reports.length ≤ pskReportQueueCapacity)
    (hdistinct : (calls (s.reporter.queue ++ reports)).Nodup)
    (hrecent : ∀ call ∈ calls reports, call ∉ s.reporter.recent.map (·.key)) :
    Reachable reporterStep anyStep start
      {s with reporter := {s.reporter with queue := s.reporter.queue ++ reports}} := by
  induction reports generalizing s with
  | nil =>
      rw [List.append_nil]
      exact hs
  | cons report reports ih =>
      rw [List.length_cons] at hroom
      have hnew : report.senderCall ∉ calls s.reporter.queue := by
        rw [calls, List.map_append, List.map_cons, List.nodup_middle, List.nodup_cons,
          List.mem_append, not_or] at hdistinct
        exact hdistinct.1.1
      have hreporter := enqueue_fresh now (hvalid report List.mem_cons_self) hrunning
        (by omega) hnew (hrecent _ List.mem_cons_self)
      have hstep : reporterStep s (.enqueue report now) =
          some {s with reporter := {s.reporter with queue := s.reporter.queue ++ [report]}} := by
        rcases hpoint with hpoint | hpoint <;>
          simp only [reporterStep, hpoint, hreporter, hclock, max_self]
      have hrest := ih (fun r hr => hvalid r (List.mem_cons_of_mem _ hr)) (hs.next trivial hstep)
        hpoint hrunning hclock
        (by
          rw [List.length_append, List.length_singleton]
          omega)
        (by
          rw [List.append_assoc, List.singleton_append]
          exact hdistinct)
        (fun call hcall => hrecent call (List.mem_cons_of_mem _ hcall))
      rw [List.append_assoc, List.singleton_append] at hrest
      exact hrest

/-- The thread takes a queue of forty reports as one packet. -/
theorem thread_takes_forty (hpoint : s.point = .start ∨ s.point = .waiting)
    (hrunning : s.reporter.stopping = false) (hstrings : ValidStrings s.reporter)
    (hvalid : ∀ report ∈ s.reporter.queue, validReport report = true)
    (hcount : s.reporter.queue.length = pskReportImmediateCount) (hclock : s.clock = now)
    (hnow : 0 ≤ now) :
    ∃ packetSize packet, reporterStep s (.thread now) = some {s with
      clock := now
      point := .sending packetSize pskReportImmediateCount (templatesDue s.reporter now)
      packet := packet
      inFlight := s.reporter.queue} := by
  have hne : s.reporter.queue ≠ [] := by
    rw [← List.length_pos_iff, hcount]
    decide
  have hready : mustWait s.reporter now = false := by
    simp [mustWait, PskReporter.count, hcount]
  have hall : (packetReportCount s.reporter (templatesDue s.reporter now) s.packet 0 now).1 =
      pskReportImmediateCount := by
    rw [packetReportCount_eq hstrings hvalid hne hnow, hcount]
    rfl
  have htake : s.reporter.queue.take pskReportImmediateCount = s.reporter.queue := by
    rw [← hcount, List.take_length]
  have hsome : ¬ pskReportImmediateCount = 0 := by decide
  refine ⟨(packetReportCount s.reporter (templatesDue s.reporter now) s.packet 0 now).2.2,
    (packetReportCount s.reporter (templatesDue s.reporter now) s.packet 0 now).2.1, ?_⟩
  rcases hpoint with hpoint | hpoint <;>
    simp only [reporterStep, hpoint, hclock, hready, hrunning, afterWait, hall, PskReporter.count,
      hcount, hsome, htake, lt_self_iff_false, if_false, Bool.false_eq_true, or_self]

/-- With an empty queue the thread waits for the end of the flush interval. -/
theorem thread_waits (hpoint : s.point = .loop) (hrunning : s.reporter.stopping = false)
    (hempty : s.reporter.queue = []) (hclock : s.clock = now)
    (hflush : now < s.reporter.nextFlush) :
    reporterStep s (.thread now) = some {s with clock := now, point := .waiting} := by
  have hmust : mustWait s.reporter now = true := by
    simp [mustWait, PskReporter.count, hrunning, hempty, hflush, pskReportImmediateCount]
  simp only [reporterStep, hpoint, hclock, hrunning, hmust, lt_self_iff_false, if_false, if_true,
    Bool.false_eq_true]

/-- The packet with the whole queue is sent and the thread waits again. -/
theorem packet_with_queue_sent {packetSize : Nat} {templates : Bool}
    (hs : Reachable reporterStep anyStep start s)
    (hpoint : s.point = .sending packetSize pskReportImmediateCount templates)
    (hrunning : s.reporter.stopping = false) (hstrings : ValidStrings s.reporter)
    (hvalid : ∀ report ∈ s.reporter.queue, validReport report = true)
    (hcount : s.reporter.queue.length = pskReportImmediateCount) (hclock : s.clock = now) :
    ∃ t, Reachable reporterStep anyStep start t ∧ Idle t now ∧
      t.sent = s.sent ++ [(now, s.inFlight)] ∧
      t.reporter.recent = recordAll [] now s.reporter.recent (calls s.reporter.queue) := by
  have hreturns : reporterStep s (.transportReturns true now) = some
      (afterTransport {s with clock := now} pskReportImmediateCount templates true now) := by
    simp only [reporterStep, hpoint, hclock, lt_self_iff_false, if_false]
  have htake : s.reporter.queue.take pskReportImmediateCount = s.reporter.queue := by
    rw [← hcount, List.take_length]
  have hdrop : s.reporter.queue.drop pskReportImmediateCount = [] := by
    rw [← hcount, List.drop_length]
  have hflush : now < s.reporter.flushTime now := by
    have : pskReportFlushSeconds = 300 := rfl
    unfold PskReporter.flushTime
    omega
  have hwaits := thread_waits (s := afterTransport {s with clock := now} pskReportImmediateCount
    templates true now) rfl hrunning hdrop rfl hflush
  refine ⟨_, (hs.next trivial hreturns).next trivial hwaits,
    ⟨Or.inr rfl, hdrop, hrunning, hstrings, rfl⟩, rfl, ?_⟩
  exact (congrArg (markRecent s.reporter.recent · now) htake).trans (markRecent_eq hvalid _ _)

/-- Forty senders that the table does not hold are sent at once. -/
theorem burst_sent (reports : List PskReport)
    (hs : Reachable reporterStep anyStep start s) (hidle : Idle s now) (hnow : 0 ≤ now)
    (hvalid : ∀ report ∈ reports, validReport report = true)
    (hcount : reports.length = pskReportImmediateCount) (hdistinct : (calls reports).Nodup)
    (hrecent : ∀ call ∈ calls reports, call ∉ s.reporter.recent.map (·.key)) :
    ∃ t, Reachable reporterStep anyStep start t ∧ Idle t now ∧
      t.sent = s.sent ++ [(now, reports)] ∧
      t.reporter.recent = recordAll [] now s.reporter.recent (calls reports) := by
  obtain ⟨hpoint, hempty, hrunning, hstrings, hclock⟩ := hidle
  have hqueued := enqueue_all_fresh hvalid hs hpoint hrunning hclock
    (by
      rw [hempty, hcount]
      decide)
    (by rwa [hempty, List.nil_append]) hrecent
  rw [hempty, List.nil_append] at hqueued
  obtain ⟨packetSize, packet, htaken⟩ :=
    thread_takes_forty (s := {s with reporter := {s.reporter with queue := reports}})
      hpoint hrunning hstrings hvalid hcount hclock hnow
  exact packet_with_queue_sent (hqueued.next trivial htaken) rfl hrunning hstrings hvalid hcount rfl

/-- Bursts of new senders are sent one after the other: each is queued, makes the thread send
at once because of its size, and is recorded before the next one. -/
theorem bursts_sent (bursts : List (List PskReport))
    (hs : Reachable reporterStep anyStep start s) (hidle : Idle s now) (hnow : 0 ≤ now)
    (hvalid : ∀ report ∈ bursts.flatten, validReport report = true)
    (hcount : ∀ reports ∈ bursts, reports.length = pskReportImmediateCount)
    (hdistinct : (calls bursts.flatten).Nodup)
    (hrecent : ∀ call ∈ calls bursts.flatten, call ∉ s.reporter.recent.map (·.key)) :
    ∃ t, Reachable reporterStep anyStep start t ∧ Idle t now ∧
      t.sent = s.sent ++ bursts.map (now, ·) ∧
      t.reporter.recent = recordAll [] now s.reporter.recent (calls bursts.flatten) := by
  induction bursts generalizing s with
  | nil => exact ⟨s, hs, hidle, (List.append_nil _).symm, rfl⟩
  | cons reports bursts ih =>
      simp only [calls, List.flatten_cons, List.map_append, List.nodup_append,
        List.forall_mem_append, List.forall_mem_cons] at hvalid hcount hdistinct hrecent
      obtain ⟨t, ht, htIdle, htSent, htRecent⟩ :=
        burst_sent _ hs hidle hnow hvalid.1 hcount.1 hdistinct.1 hrecent.1
      have hfresh : ∀ call ∈ calls bursts.flatten, call ∉ t.reporter.recent.map (·.key) := by
        intro call hcall hmem
        obtain ⟨entry, hentry, rfl⟩ := List.mem_map.mp hmem
        rw [htRecent] at hentry
        rcases mem_recordAll hentry with hold | ⟨hkey, -⟩
        · exact hrecent.2 _ hcall (List.mem_map_of_mem hold)
        · exact hdistinct.2.2 _ hkey _ hcall rfl
      obtain ⟨u, hu, huIdle, huSent, huRecent⟩ :=
        ih ht htIdle hvalid.2 hcount.2 hdistinct.2.1 hfresh
      refine ⟨u, hu, huIdle, ?_, ?_⟩
      · rw [huSent, htSent, List.append_assoc, List.singleton_append, List.map_cons]
      · rw [huRecent, htRecent, recordAll, recordAll, recordAll, calls, calls, calls,
          List.flatten_cons, List.map_append, List.foldl_append]

end Burst

/-- 6760 callsigns of four characters. -/
def nthCall (n : Nat) : CString :=
  [UInt8.ofNat (65 + n % 26), UInt8.ofNat (48 + n / 26 % 10), UInt8.ofNat (65 + n / 260), 88]

theorem nthCall_inj {n m : Nat} (hn : n < 6760) (hm : m < 6760) (h : nthCall n = nthCall m) :
    n = m := by
  simp only [nthCall, List.cons.injEq, ← UInt8.toNat_inj, UInt8.toNat_ofNat'] at h
  omega

/-- One report for each of these callsigns. -/
def crowd (numbers : List Nat) : List PskReport := numbers.map fun n => spot (nthCall n) 0

theorem calls_crowd (numbers : List Nat) : calls (crowd numbers) = numbers.map nthCall := by
  rw [calls, crowd, List.map_map]
  rfl

theorem crowd_valid (numbers : List Nat) : ∀ report ∈ crowd numbers, validReport report = true := by
  intro report hreport
  obtain ⟨n, -, rfl⟩ := List.mem_map.mp hreport
  rfl

theorem crowd_distinct {numbers : List Nat} (hdistinct : numbers.Nodup)
    (hsmall : ∀ n ∈ numbers, n < 6760) : (calls (crowd numbers)).Nodup := by
  rw [calls_crowd]
  exact hdistinct.map_on fun n hn m hm h => nthCall_inj (hsmall n hn) (hsmall m hm) h

/-- The first 280 callsigns in bursts of forty. -/
def firstBursts : List (List PskReport) :=
  (List.range 7).map fun k => crowd (List.range' (40 * k) 40)

theorem firstBursts_flatten : firstBursts.flatten = crowd (List.range 280) := by
  have hnumbers : (List.range 7).flatMap (fun k => List.range' (40 * k) 40) = List.range 280 := by
    decide +kernel
  rw [firstBursts, ← hnumbers, crowd, List.map_flatMap]
  rfl

/-- The run that fills the table and goes on: 280 senders in bursts, after which the table
holds 256 of them. -/
theorem firstBursts_sent :
    ∃ s, Reachable reporterStep anyStep (reporterRunStart exampleReporter [] 1) s ∧ Idle s 1 ∧
      s.sent = firstBursts.map (1, ·) ∧ s.reporter.recent.length = 256 ∧
      ∀ call ∈ s.reporter.recent.map (·.key), call ≠ [] → ∃ n < 280, nthCall n = call := by
  have hidle : Idle (reporterRunStart exampleReporter [] 1) 1 :=
    ⟨Or.inl rfl, by decide, by decide, ⟨by decide, by decide, by decide⟩, rfl⟩
  have hfree : ∀ call ∈ (reporterRunStart exampleReporter [] 1).reporter.recent.map (·.key),
      call = [] := by
    decide +kernel
  obtain ⟨s, hs, hsIdle, hsent, hrecent⟩ := bursts_sent firstBursts .start hidle
    (by decide)
    (by
      rw [firstBursts_flatten]
      exact crowd_valid _)
    (by decide)
    (by
      rw [firstBursts_flatten]
      exact crowd_distinct List.nodup_range
        fun n hn => Nat.lt_trans (List.mem_range.mp hn) (by decide))
    (by
      intro call hcall hmem
      rw [firstBursts_flatten, calls_crowd] at hcall
      obtain ⟨n, -, rfl⟩ := List.mem_map.mp hcall
      cases hfree _ hmem)
  refine ⟨s, hs, hsIdle, hsent, ?_, ?_⟩
  · rw [hrecent, recordAll_length]
    decide +kernel
  · intro call hcall hne
    obtain ⟨entry, hentry, rfl⟩ := List.mem_map.mp hcall
    rw [hrecent, firstBursts_flatten, calls_crowd] at hentry
    rcases mem_recordAll hentry with hold | ⟨hkey, -⟩
    · exact absurd (hfree _ (List.mem_map_of_mem hold)) hne
    · obtain ⟨n, hn, h⟩ := List.mem_map.mp hkey
      exact ⟨n, List.mem_range.mp hn, h⟩

/-- One of 280 senders is no longer in the table and is sent again in the same
second. -/
theorem sender_sent_twice :
    ¬ ∀ s, Reachable reporterStep anyStep (reporterRunStart exampleReporter [] 1) s →
      SendsSpaced s := by
  intro hall
  obtain ⟨s, hs, hidle, hsent, hsize, hkeys⟩ := firstBursts_sent
  have hdistinct : ((List.range 280).map nthCall).Nodup := by
    rw [← calls_crowd]
    exact crowd_distinct List.nodup_range
      fun n hn => Nat.lt_trans (List.mem_range.mp hn) (by decide)
  obtain ⟨_, hcall, hmissing⟩ : ∃ call ∈ (List.range 280).map nthCall,
      call ∉ s.reporter.recent.map (·.key) := exists_key_missing hdistinct (by
    rw [hsize, List.length_map, List.length_range]
    decide)
  obtain ⟨n, hn, rfl⟩ := List.mem_map.mp hcall
  have hn := List.mem_range.mp hn
  have hothers : ∀ m ∈ List.range' 280 39, 280 ≤ m ∧ m < 6760 := by decide
  obtain ⟨t, ht, -, hagain, -⟩ := burst_sent (crowd (n :: List.range' 280 39)) hs hidle
    (by decide) (crowd_valid _) (by simp [crowd, pskReportImmediateCount])
    (crowd_distinct
      (List.nodup_cons.mpr ⟨fun h => by have := (hothers n h).1; omega, List.nodup_range'⟩)
      (List.forall_mem_cons.mpr ⟨by omega, fun m hm => (hothers m hm).2⟩))
    (by
      rw [calls_crowd, List.map_cons, List.forall_mem_cons]
      refine ⟨hmissing, fun call hcall hmem => ?_⟩
      obtain ⟨m, hm, rfl⟩ := List.mem_map.mp hcall
      obtain ⟨k, hk, hsame⟩ := hkeys _ hmem (List.cons_ne_nil _ _)
      have := nthCall_inj (by omega) (hothers m hm).2 hsame
      have := (hothers m hm).1
      omega)
  have hspaced := hall t ht
  rw [SendsSpaced, hagain, hsent, List.pairwise_append] at hspaced
  -- The burst of forty that the callsign was first sent in.
  have hfirst : nthCall n ∈ calls firstBursts.flatten := by
    rw [firstBursts_flatten, calls_crowd]
    exact hcall
  obtain ⟨report, hreport, hcallsign⟩ := List.mem_map.mp hfirst
  obtain ⟨reports, hburst, hmem⟩ := List.mem_flatten.mp hreport
  have hlate : (1 : Int) + pskReportFlushSeconds ≤ 1 := hspaced.2.2 (1, reports)
    (List.mem_map_of_mem hburst) _ (List.mem_singleton.mpr rfl)
    (nthCall n) (hcallsign ▸ List.mem_map_of_mem hmem) (by
      rw [calls_crowd]
      exact List.mem_cons_self)
  exact absurd hlate (by decide)

end AirspyhfWsprd.Psk
