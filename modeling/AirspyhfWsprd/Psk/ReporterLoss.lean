import AirspyhfWsprd.Psk.ReporterQueue

/-!
Which reports leave the queue, and why. The thread removes as many entries as the
packet held, whatever stands there by then. So an entry that was strengthened
while its packet was in flight is removed although only the weaker report was
sent.
-/

namespace AirspyhfWsprd.Psk

open Library

/-- The condition on the steps of a run: no enqueue strengthens an entry whose
packet is in flight, and the clock is not before 1970 when a packet is built. -/
def keepsInFlight (s : ReporterRun) : ReporterAction → Bool
  | .enqueue report now =>
      !validReport report || recentlySent s.reporter report.senderCall now ||
        (s.reporter.queue.take s.inFlight.length).all fun entry =>
          entry.senderCall != report.senderCall || report.snr ≤ entry.snr
  | .thread now => !buildsPacket s.reporter now || 0 ≤ now
  | _ => true

def KeepsInFlight (s : ReporterRun) (a : ReporterAction) : Prop := keepsInFlight s a = true

instance (s : ReporterRun) (a : ReporterAction) : Decidable (KeepsInFlight s a) :=
  inferInstanceAs (Decidable (keepsInFlight s a = true))

/-- A report leaves the queue in a step only when the transport has just sent a
packet built from a list with that report in it, or when a stronger report of the
same callsign takes its place. -/
def RemovalJustified (s : ReporterRun) (a : ReporterAction) (t : ReporterRun) : Prop :=
  ∀ report ∈ s.reporter.queue, report ∉ t.reporter.queue →
    (∃ now packetSize count templates, a = .transportReturns true now ∧
      s.point = .sending packetSize count templates ∧
        BuiltFrom s.reporter s.inFlight templates s.packet packetSize ∧ report ∈ s.inFlight) ∨
    ∃ stronger now, a = .enqueue stronger now ∧ stronger.senderCall = report.senderCall ∧
      report.snr < stronger.snr ∧ stronger ∈ t.reporter.queue

theorem prefix_before {α : Type*} {front before after : List α} {entry : α}
    (hfront : front <+: before ++ entry :: after) (hentry : entry ∉ front) : front <+: before := by
  rcases Nat.lt_or_ge before.length front.length with hlong | hshort
  · have hmore : before ++ [entry] <+: before ++ entry :: after :=
      (List.prefix_append_right_inj before).mpr (List.prefix_append [entry] after)
    have hpast : before ++ [entry] <+: front :=
      List.prefix_of_prefix_length_le hmore hfront (by
        rw [List.length_append, List.length_singleton]
        exact hlong)
    exact absurd (hpast.subset (List.mem_append_right _ List.mem_cons_self)) hentry
  · exact List.prefix_of_prefix_length_le hfront (List.prefix_append _ _) hshort

section Step

variable {s t : ReporterRun} {a : ReporterAction}

/-- Under the condition the packet in flight keeps describing the front of the
queue. -/
theorem inFlight_front_step (hinv : ReporterInv s) (hfront : s.inFlight <+: s.reporter.queue)
    (hkeeps : KeepsInFlight s a) (hstep : reporterStep s a = some t) :
    t.inFlight <+: t.reporter.queue := by
  cases a with
  | enqueue report now =>
      rw [enqueue_effect hstep]
      rcases pskReporterEnqueue_cases s.reporter report now with h | ⟨hvalid, hrecent, h⟩
      · rw [h]
        exact hfront
      rcases h with ⟨before, entry, after, hqueue, hsame, hweaker, h⟩ | ⟨-, -, h⟩
      · have hbehind : entry ∉ s.inFlight := by
          intro hentry
          have htake : s.reporter.queue.take s.inFlight.length = s.inFlight :=
            (List.prefix_iff_eq_take.mp hfront).symm
          simp only [KeepsInFlight, keepsInFlight, hvalid, hrecent, htake, Bool.not_true,
            Bool.false_or, List.all_eq_true, Bool.or_eq_true, bne_iff_ne, decide_eq_true_eq]
            at hkeeps
          exact (hkeeps entry hentry).elim (fun h => h hsame) (Int8.not_le.mpr hweaker)
        rw [hqueue] at hfront
        rw [h]
        exact (prefix_before hfront hbehind).trans (List.prefix_append _ _)
      · rw [h]
        exact hfront.trans (List.prefix_append _ _)
  | thread now =>
      obtain ⟨-, hpoint, heffect⟩ := thread_effect hstep
      have hnone := hinv.idle hpoint
      cases heffect with
      | quiet => exact hfront
      | drop =>
          simp only [hnone]
          exact List.nil_prefix
      | send => exact List.take_prefix _ _
  | transportReturns sent now =>
      obtain ⟨-, _, _, _, -, rfl⟩ := transport_effect hstep
      cases sent with
      | false => exact List.nil_prefix
      | true => exact List.nil_prefix
  | stop =>
      rw [stop_effect hstep]
      exact hfront

/-- An entry that leaves the queue in a step was in the packet that has just been sent, or a
stronger report of its sender has taken its place while it was not in flight. -/
theorem removal_step (hinv : ReporterInv s) (hfront : s.inFlight <+: s.reporter.queue)
    (hkeeps : KeepsInFlight s a) (hstep : reporterStep s a = some t) :
    RemovalJustified s a t := by
  intro report hbefore hafter
  cases a with
  | enqueue stronger now =>
      rw [enqueue_effect hstep] at hafter ⊢
      rcases pskReporterEnqueue_cases s.reporter stronger now with h | ⟨-, -, h⟩
      · rw [h] at hafter
        exact absurd hbefore hafter
      rcases h with ⟨before, entry, after, hqueue, hsame, hweaker, h⟩ | ⟨-, -, h⟩
      · rw [h] at hafter ⊢
        have hentry : report = entry := by
          rw [hqueue] at hbefore
          rcases List.mem_append.mp hbefore with hmem | hmem
          · exact absurd (List.mem_append_left _ hmem) hafter
          · rcases List.mem_cons.mp hmem with heq | hmem
            · exact heq
            · exact absurd (List.mem_append_right _ (List.mem_cons_of_mem _ hmem)) hafter
        subst hentry
        exact Or.inr ⟨stronger, now, rfl, hsame.symm, hweaker,
          List.mem_append_right _ List.mem_cons_self⟩
      · rw [h] at hafter
        exact absurd (List.mem_append_left _ hbefore) hafter
  | thread now =>
      obtain ⟨-, -, heffect⟩ := thread_effect hstep
      cases heffect with
      | quiet => exact absurd hbefore hafter
      | drop hbuilds hcount =>
          -- The first attempt to build a packet succeeds, so this does not happen.
          have hnow : 0 ≤ now := by
            simpa [KeepsInFlight, keepsInFlight, hbuilds] using hkeeps
          have hne := List.ne_nil_of_mem hbefore
          have heq := packetReportCount_eq hinv.strings hinv.valid hne hnow
            (templatesDue s.reporter now) s.packet 0
          rw [hcount] at heq
          have hpos : 0 < s.reporter.queue.length := List.length_pos_iff.mpr hne
          have himmediate : pskReportImmediateCount = 40 := rfl
          omega
      | send => exact absurd hbefore hafter
  | transportReturns sent now =>
      obtain ⟨-, packetSize, count, templates, hpoint, rfl⟩ := transport_effect hstep
      obtain ⟨hcount, -, hbuilt⟩ := hinv.flight packetSize count templates hpoint
      cases sent with
      | false => exact absurd hbefore hafter
      | true =>
          have htake : s.reporter.queue.take count = s.inFlight := by
            rw [hcount]
            exact (List.prefix_iff_eq_take.mp hfront).symm
          rw [← List.take_append_drop count s.reporter.queue, htake] at hbefore
          rcases List.mem_append.mp hbefore with hmem | hmem
          · exact Or.inl ⟨now, packetSize, count, templates, rfl, hpoint, hbuilt, hmem⟩
          · exact absurd hmem hafter
  | stop =>
      rw [stop_effect hstep] at hafter
      exact absurd hbefore hafter

end Step

/-- No stored report is lost in a run that never strengthens an entry while its packet is in
flight. The reports in flight are then at the front of the queue until the transport returns,
so the ones it removes are the ones it has sent. -/
theorem removal_justified_in_kept_runs {receiverCall receiverGrid software : CString}
    {observationId : UInt32} {now : Int} {reporter : PskReporter}
    (hstart : pskReporterStart receiverCall receiverGrid software observationId now =
      some reporter) (packet : List UInt8) {s t : ReporterRun} {a : ReporterAction}
    (hs : Reachable reporterStep KeepsInFlight (reporterRunStart reporter packet now) s)
    (ha : KeepsInFlight s a) (hstep : reporterStep s a = some t) : RemovalJustified s a t := by
  obtain ⟨hstrings, hqueue, -⟩ := pskReporterStart_valid hstart
  have hinv : ∀ s, Reachable reporterStep KeepsInFlight (reporterRunStart reporter packet now) s →
      ReporterInv s :=
    Reachable.invariant (reporterRunStart_inv hstrings hqueue packet now)
      fun _ _ _ _ hinv _ hstep => reporterStep_inv hinv hstep
  have hfront : ∀ s, Reachable reporterStep KeepsInFlight (reporterRunStart reporter packet now) s →
      s.inFlight <+: s.reporter.queue :=
    Reachable.invariant List.nil_prefix fun s _ _ hs hfront ha hstep =>
      inFlight_front_step (hinv s hs) hfront ha hstep
  exact removal_step (hinv s hs) (hfront s hs) ha hstep

def spot (call : CString) (snr : Int8) : PskReport := ⟨call, 14074500, snr, 100⟩

theorem exampleReporter_starts : (pskReporterStart (bytes "N0CALL") (bytes "AA00aa")
    (bytes "airspyhf-wsprd") 7 0).isSome = true := by
  decide

def exampleReporter : PskReporter :=
  (pskReporterStart (bytes "N0CALL") (bytes "AA00aa") (bytes "airspyhf-wsprd") 7 0).get
    exampleReporter_starts

/-- Another callsign is heard while the packet with the first one is in flight. -/
def otherSpotActions : List ReporterAction :=
  [.enqueue (spot (bytes "K1TE") (-10)) 1, .thread 1000, .enqueue (spot (bytes "G8VDQ") 5) 1001]

theorem otherSpotActions_run :
    (execute reporterStep (reporterRunStart exampleReporter [] 0) otherSpotActions).isSome =
      true := by
  decide +kernel

/-- The same callsign is heard again, and stronger. -/
def strongerSpotActions : List ReporterAction :=
  [.enqueue (spot (bytes "K1TE") (-10)) 1, .thread 1000, .enqueue (spot (bytes "K1TE") 5) 1001]

theorem strongerSpotActions_run :
    (execute reporterStep (reporterRunStart exampleReporter [] 0) strongerSpotActions).isSome =
      true := by
  decide +kernel

def otherSpotState : ReporterRun :=
  (execute reporterStep (reporterRunStart exampleReporter [] 0) otherSpotActions).get
    otherSpotActions_run

def strongerSpotState : ReporterRun :=
  (execute reporterStep (reporterRunStart exampleReporter [] 0) strongerSpotActions).get
    strongerSpotActions_run

theorem otherSpot_sends :
    (reporterStep otherSpotState (.transportReturns true 1002)).isSome = true := by
  decide +kernel

theorem strongerSpot_sends :
    (reporterStep strongerSpotState (.transportReturns true 1002)).isSome = true := by
  decide +kernel

/-- While a packet is in flight a report of another callsign comes in, which stays when the
packet has been sent. -/
theorem otherSpot_removal_justified :
    RemovalJustified otherSpotState (.transportReturns true 1002)
      ((reporterStep otherSpotState (.transportReturns true 1002)).get otherSpot_sends) :=
  removal_justified_in_kept_runs (Option.some_get exampleReporter_starts).symm []
    (.get_execute otherSpotActions (by decide +kernel) otherSpotActions_run) (by decide)
    (Option.some_get otherSpot_sends).symm

/-- The stronger report comes in while the packet with the weaker one is in flight. It takes
the place of that one in the queue, and is removed although it was never sent. -/
theorem stronger_report_lost :
    ¬ ∀ s a t, Reachable reporterStep anyStep (reporterRunStart exampleReporter [] 0) s →
      reporterStep s a = some t → RemovalJustified s a t := by
  intro hall
  have hjustified := hall strongerSpotState (.transportReturns true 1002) _
    (.get_execute strongerSpotActions (allAllowed_anyStep _ _ _) strongerSpotActions_run)
    (Option.some_get strongerSpot_sends).symm
  have hqueued : spot (bytes "K1TE") 5 ∈ strongerSpotState.reporter.queue := by
    decide +kernel
  have hremoved : spot (bytes "K1TE") 5 ∉ ((reporterStep strongerSpotState
      (.transportReturns true 1002)).get strongerSpot_sends).reporter.queue := by
    decide +kernel
  have hunsent : spot (bytes "K1TE") 5 ∉ strongerSpotState.inFlight := by
    decide +kernel
  rcases hjustified _ hqueued hremoved with ⟨_, _, _, _, -, -, -, hsent⟩ | ⟨_, _, h, -⟩
  · exact hunsent hsent
  · cases h

end AirspyhfWsprd.Psk
