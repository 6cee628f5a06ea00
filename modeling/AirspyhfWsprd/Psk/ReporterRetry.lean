import Mathlib.Data.List.Chain
import AirspyhfWsprd.Psk.ReporterDuplicates

/-!
When the thread calls the transport again after a failure. The delay is only in
`next_flush`, and forty queued reports end the wait whatever `next_flush` says. So
with such a backlog every failed call is followed by another at once.
-/

namespace AirspyhfWsprd.Psk

open Library

/-- What passes between the thread and the transport, with the time the thread has read. -/
inductive TransportEvent where
  | called (time : Int)
  | returned (sent : Bool) (time : Int)
deriving DecidableEq

/-- A run with the transport's events so far. -/
structure TransportRun where
  run : ReporterRun
  history : List TransportEvent

/-- The event of a step into this state. -/
def transportEvents (a : ReporterAction) (t : ReporterRun) : List TransportEvent :=
  match a, t.point with
  | .thread now, .sending _ _ _ => [.called now]
  | .transportReturns sent now, _ => [.returned sent now]
  | _, _ => []

def transportStep (s : TransportRun) (a : ReporterAction) : Option TransportRun :=
  (reporterStep s.run a).map fun t => ⟨t, s.history ++ transportEvents a t⟩

/-- The call after a failed one comes after the retry time. -/
def RetrySpaced : TransportEvent → TransportEvent → Prop
  | .returned false failed, .called again => failed + pskReportRetrySeconds ≤ again
  | _, _ => True

/-- The condition on the steps of a run: until the retry time after a failed call is
over, the thread finds fewer than forty reports in the queue, or has to stop. -/
def shortBacklog (s : TransportRun) (a : ReporterAction) : Bool :=
  match a, s.history.getLast? with
  | .thread now, some (.returned false failed) =>
      failed + pskReportRetrySeconds ≤ now || s.run.reporter.stopping ||
        s.run.reporter.count < pskReportImmediateCount
  | _, _ => true

def ShortBacklog (s : TransportRun) (a : ReporterAction) : Prop := shortBacklog s a = true

instance (s : TransportRun) (a : ReporterAction) : Decidable (ShortBacklog s a) :=
  inferInstanceAs (Decidable (shortBacklog s a = true))

/-- After a failed call `next_flush` is not before the retry time. -/
structure RetryInv (s : TransportRun) : Prop where
  spaced : s.history.IsChain RetrySpaced
  waits : ∀ failed, s.history.getLast? = some (.returned false failed) →
    failed ≤ s.run.clock ∧ failed + pskReportRetrySeconds ≤ s.run.reporter.nextFlush

theorem flushTime_gt (reporter : PskReporter) (now : Int) :
    now + pskReportRetrySeconds ≤ reporter.flushTime now := by
  rw [PskReporter.flushTime, pskReportFlushSeconds, pskReportRetrySeconds]
  omega

theorem afterWait_nextFlush (s : ReporterRun) (now : Int) :
    (afterWait s now).reporter.nextFlush = s.reporter.nextFlush ∨
      (afterWait s now).reporter.nextFlush = s.reporter.flushTime now := by
  rw [afterWait]
  dsimp only
  split
  · split
    · exact Or.inr rfl
    · exact Or.inl rfl
  · split <;> exact Or.inl rfl

/-- The thread leaves the time of the next flush alone, or sets it from the present time when
it had not been set. -/
theorem thread_nextFlush {s t : ReporterRun} {now : Int}
    (hstep : reporterStep s (.thread now) = some t) :
    t.reporter.nextFlush = s.reporter.nextFlush ∨
      t.reporter.nextFlush = s.reporter.flushTime now := by
  have hwaits {u : ReporterRun} (h : (if mustWait s.reporter now then
      some {s with clock := now, point := .waiting}
      else some (afterWait {s with clock := now} now)) = some u) :
      u.reporter.nextFlush = s.reporter.nextFlush ∨
        u.reporter.nextFlush = s.reporter.flushTime now := by
    split at h
    · cases h
      exact Or.inl rfl
    · cases h
      exact afterWait_nextFlush _ now
  simp only [reporterStep] at hstep
  split at hstep
  · cases hstep
  cases hpoint : s.point with
  | start | loop =>
      simp only [hpoint] at hstep
      split at hstep
      · cases hstep
        exact Or.inl rfl
      · exact hwaits hstep
  | waiting =>
      simp only [hpoint] at hstep
      exact hwaits hstep
  | sending packetSize count templates | exited => simp [hpoint] at hstep

theorem thread_clock {s t : ReporterRun} {now : Int}
    (hstep : reporterStep s (.thread now) = some t) : s.clock ≤ now ∧ t.clock = now := by
  obtain ⟨hclock, -, heffect⟩ := thread_effect hstep
  exact ⟨hclock, by cases heffect <;> rfl⟩

/-- A call of the transport means that the thread did not have to wait. -/
theorem thread_sends {s t : ReporterRun} {now : Int}
    (hstep : reporterStep s (.thread now) = some t) (hsends : t.point.IsSending) :
    buildsPacket s.reporter now = true := by
  obtain ⟨-, -, heffect⟩ := thread_effect hstep
  cases heffect with
  | quiet point nextFlush hpoint => exact absurd hsends hpoint
  | drop hbuilds hcount => exact absurd hsends id
  | send hbuilds hcount hpos => exact hbuilds

theorem enqueue_nextFlush (reporter : PskReporter) (report : PskReport) (now : Int) :
    (pskReporterEnqueue reporter report now).2.nextFlush = reporter.nextFlush := by
  rw [pskReporterEnqueue]
  split
  · rfl
  split
  · rfl
  split
  · rfl
  · split <;> rfl

section Step

variable {s : TransportRun} {t : ReporterRun}

/-- A step that the transport does not see. -/
theorem quiet_inv (hinv : RetryInv s) (hclock : s.run.clock ≤ t.clock)
    (hflush : t.reporter.nextFlush = s.run.reporter.nextFlush ∨
      t.reporter.nextFlush = s.run.reporter.flushTime t.clock) :
    RetryInv ⟨t, s.history ++ []⟩ := by
  rw [List.append_nil]
  refine ⟨hinv.spaced, fun failed hlast => ?_⟩
  obtain ⟨hfailed, hwaits⟩ := hinv.waits failed hlast
  refine ⟨Int.le_trans hfailed hclock, ?_⟩
  rcases hflush with hflush | hflush
  · exact hflush ▸ hwaits
  · have hlater := flushTime_gt s.run.reporter t.clock
    change failed + pskReportRetrySeconds ≤ t.reporter.nextFlush
    omega

/-- Under the condition the thread calls the transport only when the retry time is over. -/
theorem called_inv (hinv : RetryInv s) {now : Int} (hshort : ShortBacklog s (.thread now))
    (hbuilds : buildsPacket s.run.reporter now = true) :
    RetryInv ⟨t, s.history ++ [.called now]⟩ := by
  constructor
  · apply hinv.spaced.append (.singleton _)
    intro last hlast next hnext
    obtain rfl := Option.some.inj hnext
    rcases last with earlier | ⟨_ | _, failed⟩
    · trivial
    · have hwaits := (hinv.waits failed hlast).2
      simp only [ShortBacklog, shortBacklog, Option.mem_def.mp hlast, Bool.or_eq_true,
        decide_eq_true_eq] at hshort
      simp only [buildsPacket, mustWait, Bool.and_eq_true, Bool.not_eq_true',
        Bool.and_eq_false_iff, decide_eq_false_iff_not] at hbuilds
      obtain ⟨⟨hwait, hrunning⟩, -⟩ := hbuilds
      rcases hshort with (hover | hstopping) | hfew
      · exact hover
      · rw [hrunning] at hstopping
        cases hstopping
      · rcases hwait with (hstopping | hmany) | hflush
        · rw [hrunning] at hstopping
          cases hstopping
        · exact absurd hfew hmany
        · exact Int.le_trans hwaits (Int.not_lt.mp hflush)
    · trivial
  · intro failed hlast
    rw [List.getLast?_concat] at hlast
    cases hlast

theorem returned_inv (hinv : RetryInv s) (count : Nat) (templates sent : Bool) (now : Int) :
    RetryInv ⟨afterTransport {s.run with clock := now} count templates sent now,
      s.history ++ [.returned sent now]⟩ := by
  constructor
  · apply hinv.spaced.append (.singleton _)
    intro last hlast next hnext
    obtain rfl := Option.some.inj hnext
    rcases last with earlier | ⟨_ | _, earlier⟩ <;> trivial
  · intro failed hlast
    rw [List.getLast?_concat] at hlast
    obtain ⟨rfl, rfl⟩ := TransportEvent.returned.inj (Option.some.inj hlast)
    exact ⟨Int.le_refl _, Int.le_refl _⟩

/-- With fewer than forty reports queued the thread waits for the time that the last failure
has set, so the calls keep their distance. -/
theorem transportStep_inv {a : ReporterAction} {u : TransportRun} (hinv : RetryInv s)
    (hshort : ShortBacklog s a) (hstep : transportStep s a = some u) : RetryInv u := by
  obtain ⟨t, hrun, rfl⟩ := Option.map_eq_some_iff.mp hstep
  cases a with
  | enqueue report now =>
      obtain rfl := enqueue_effect hrun
      exact quiet_inv hinv (Int.le_max_left _ _) (Or.inl (enqueue_nextFlush _ _ _))
  | thread now =>
      have hclock := thread_clock hrun
      have hflush := thread_nextFlush hrun
      rw [← hclock.2] at hflush
      cases hpoint : t.point with
      | sending packetSize count templates =>
          have hsends : t.point.IsSending := hpoint ▸ trivial
          simp only [transportEvents, hpoint]
          exact called_inv hinv hshort (thread_sends hrun hsends)
      | start | loop | waiting | exited =>
          simp only [transportEvents, hpoint]
          exact quiet_inv hinv (hclock.2 ▸ hclock.1) hflush
  | transportReturns sent now =>
      obtain ⟨-, packetSize, count, templates, -, rfl⟩ := transport_effect hrun
      exact returned_inv hinv count templates sent now
  | stop =>
      obtain rfl := stop_effect hrun
      exact quiet_inv hinv (Int.le_refl _) (Or.inl rfl)

end Step

/-- The run of a reporter that has just been started, with no call of the transport yet. -/
def transportRunStart (reporter : PskReporter) (packet : List UInt8) (now : Int) : TransportRun :=
  ⟨reporterRunStart reporter packet now, []⟩

/-- Failed sends are spaced in a run that has no backlog of forty reports while the retry time
lasts. A failure moves `next_flush`, and the thread looks at it only below forty reports. -/
theorem retries_spaced_with_short_backlog {reporter : PskReporter} {packet : List UInt8}
    {now : Int} {s : TransportRun}
    (hs : Reachable transportStep ShortBacklog (transportRunStart reporter packet now) s) :
    s.history.IsChain RetrySpaced := by
  have hinv : ∀ s, Reachable transportStep ShortBacklog (transportRunStart reporter packet now) s →
      RetryInv s :=
    Reachable.invariant ⟨.nil, nofun⟩ fun _ _ _ _ hinv hshort hstep =>
      transportStep_inv hinv hshort hstep
  exact (hinv s hs).spaced

/-- One report, and a call that fails at time 400; the thread looks again at once and then
when it has waited for the retry time. -/
def oneReportActions : List ReporterAction :=
  [.enqueue (spot (bytes "K1TE") (-10)) 1, .thread 400, .transportReturns false 400,
    .thread 400, .thread 460]

theorem oneReportActions_run :
    (execute transportStep (transportRunStart exampleReporter [] 0) oneReportActions).isSome =
      true := by
  decide +kernel

/-- One report fails, and is sent again after the retry time. -/
theorem oneReport_retry_spaced :
    ((execute transportStep (transportRunStart exampleReporter [] 0) oneReportActions).get
      oneReportActions_run).history.IsChain RetrySpaced :=
  retries_spaced_with_short_backlog
    (.get_execute oneReportActions (by decide +kernel) oneReportActions_run)

/-- Forty reports, and a call that fails. -/
def fortyReportsActions : List ReporterAction :=
  (crowd (List.range 40)).map (.enqueue · 1) ++
    [.thread 1, .transportReturns false 1, .thread 1]

theorem fortyReportsActions_run :
    ((execute transportStep (transportRunStart exampleReporter [] 0) fortyReportsActions).map
      TransportRun.history) = some [.called 1, .returned false 1, .called 1] := by
  decide +kernel

/-- The transport is called again in the second in which it failed. -/
theorem backlog_retried_at_once :
    ¬ ∀ s, Reachable transportStep anyStep (transportRunStart exampleReporter [] 0) s →
      s.history.IsChain RetrySpaced := by
  intro hall
  obtain ⟨s, hrun, hhistory⟩ := Option.map_eq_some_iff.mp fortyReportsActions_run
  have hspaced := hall s (.of_execute fortyReportsActions .start (allAllowed_anyStep _ _ _) hrun)
  rw [hhistory] at hspaced
  obtain ⟨-, hspaced⟩ := List.isChain_cons_cons.mp hspaced
  obtain ⟨hretry, -⟩ := List.isChain_cons_cons.mp hspaced
  have hlate : (1 : Int) + pskReportRetrySeconds ≤ 1 := hretry
  exact absurd hlate (by decide)

end AirspyhfWsprd.Psk
