import AirspyhfWsprd.Wspr.ReporterQueue

/-!
When the uploader calls the transport again after a failure. The delay doubles with
every failure of a spot up to fifteen minutes. It is kept in the entry at the head of
the ring, and the uploader looks at no other entry before that one has left. A spot
is named by the number of spots accepted before it.
-/

namespace AirspyhfWsprd.Wspr

open Library

/-- The number of seconds that `retry_delay` begins with. -/
def retryBase (retryBaseSeconds : Nat) : Nat :=
  if 1 ≤ retryBaseSeconds ∧ retryBaseSeconds ≤ 60 then retryBaseSeconds else 5

/-- The delay that the next failure brings after this many failures. -/
def backoff (base failures : Nat) : Nat := min maxRetryDelaySeconds (base * 2 ^ failures)

theorem retryBase_le (retryBaseSeconds : Nat) :
    retryBase retryBaseSeconds ≤ maxRetryDelaySeconds := by
  rw [retryBase, maxRetryDelaySeconds]
  split <;> omega

/-- The loop that doubles the delay, and stops at the largest one, gives the delay of the
abstract layer. -/
theorem retryDelayLoop_eq (rounds : Nat) {delay : Nat} (hdelay : delay ≤ maxRetryDelaySeconds) :
    retryDelayLoop rounds delay = backoff delay rounds := by
  induction rounds generalizing delay with
  | zero => simp [retryDelayLoop, backoff, hdelay]
  | succ rounds ih =>
      have hpower : 1 ≤ 2 ^ rounds := Nat.one_le_two_pow
      rw [retryDelayLoop]
      split
      · rw [ih (Nat.min_le_right _ _), backoff, backoff, Nat.pow_succ, Nat.mul_comm (2 ^ rounds),
          ← Nat.mul_assoc]
        rcases Nat.le_total (delay * 2) maxRetryDelaySeconds with hle | hle
        · rw [Nat.min_eq_left hle]
        · rw [Nat.min_eq_right hle, Nat.min_eq_left (Nat.le_mul_of_pos_right _ hpower),
            Nat.min_eq_left (Nat.le_trans hle (Nat.le_mul_of_pos_right _ hpower))]
      · rename_i hfull
        have hmax : delay = maxRetryDelaySeconds := by omega
        rw [backoff, hmax, Nat.min_eq_left (Nat.le_mul_of_pos_right _ Nat.one_le_two_pow)]

/-- The delay of the failure after `failures` others. -/
theorem retryDelay_eq (retryBaseSeconds : Nat) {failures : Nat} (hcount : failures + 1 < 2 ^ 32) :
    retryDelay retryBaseSeconds (UInt32.ofNat (failures + 1)) =
      backoff (retryBase retryBaseSeconds) failures := by
  have hrounds : (UInt32.ofNat (failures + 1)).toNat - 1 = failures := by
    rw [UInt32.toNat_ofNat', Nat.mod_eq_of_lt hcount, Nat.add_sub_cancel]
  rw [retryDelay, hrounds]
  exact retryDelayLoop_eq failures (retryBase_le retryBaseSeconds)

inductive UploadEvent where
  | called (spot : Nat) (now : Int)
  | retried (spot : Nat) (now : Int)

/-- A run with the latest time read and the transport's events. -/
structure TimedRun where
  run : UploaderRun
  clock : Int
  history : List UploadEvent

/-- The clock behind an action, if it has not run backwards. -/
def readClock (clock : Int) : UploaderAction → Option Int
  | .enqueue _ | .stop => some clock
  | .wake now => if clock ≤ now then some now else none
  | .transportReturns _ failedAt now =>
      if clock ≤ failedAt ∧ failedAt ≤ now then some now else none

/-- The failure that a step records. -/
def failureEvents (s : UploaderRun) : UploaderAction → List UploadEvent
  | .transportReturns .retry failedAt _ => [.retried s.removed.length failedAt]
  | _ => []

/-- The transport call that a step ends with. -/
def callEvents (a : UploaderAction) (t : UploaderRun) : List UploadEvent :=
  match a, t.point with
  | .wake now, .sending _ | .transportReturns _ _ now, .sending _ =>
      [.called t.removed.length now]
  | _, _ => []

def timedStep (s : TimedRun) (a : UploaderAction) : Option TimedRun := do
  let clock ← readClock s.clock a
  let t ← uploaderStep s.run a
  some ⟨t, clock, s.history ++ failureEvents s.run a ++ callEvents a t⟩

def timedStart (endpoint version : CString) (retryBaseSeconds : Nat) (now : Int) : TimedRun :=
  ⟨uploaderStart endpoint version retryBaseSeconds, now, []⟩

/-- The times of a spot's failures. -/
def failures (history : List UploadEvent) (spot : Nat) : List Int :=
  history.filterMap fun
    | .retried failed now => if failed = spot then some now else none
    | .called _ _ => none

/-- A failure of the spot, fewer than 2^32 with it, calls for a delay to this time. -/
def HoldsBack (base : Nat) (history : List UploadEvent) (spot : Nat) (release : Int) :
    Prop :=
  ∃ past time rest, history = past ++ .retried spot time :: rest ∧
    (failures past spot).length + 1 < 2 ^ 32 ∧
      release = time + backoff base (failures past spot).length

/-- A spot is sent when the delays of its own failures and of earlier spots are over. -/
def BacksOff (base : Nat) (before : List UploadEvent) : UploadEvent → Prop
  | .called spot now => ∀ earlier ≤ spot, ∀ release, HoldsBack base before earlier release →
      release ≤ now
  | .retried _ _ => True

/-- The time before which a spot with these failures is not sent. -/
def dueTime (retryBaseSeconds : Nat) (failed : List Int) : Int :=
  match failed.getLast? with
  | none => 0
  | some time => time + retryDelay retryBaseSeconds (UInt32.ofNat failed.length)

theorem failures_concat (history : List UploadEvent) (event : UploadEvent) (spot : Nat) :
    failures (history ++ [event]) spot = failures history spot ++ match event with
      | .retried failed now => if failed = spot then [now] else []
      | .called _ _ => [] := by
  cases event with
  | called => simp [failures]
  | retried failed now =>
      by_cases hspot : failed = spot <;> simp [failures, hspot]

theorem HoldsBack.concat {base : Nat} {history : List UploadEvent} {event : UploadEvent}
    {spot : Nat} {release : Int} (h : HoldsBack base (history ++ [event]) spot release) :
    HoldsBack base history spot release ∨ ∃ time, event = .retried spot time ∧
      (failures history spot).length + 1 < 2 ^ 32 ∧
        release = time + backoff base (failures history spot).length := by
  obtain ⟨past, time, rest, hsplit, hcount, hrelease⟩ := h
  rcases List.eq_nil_or_concat rest with rfl | ⟨rest, last, rfl⟩
  · obtain ⟨rfl, hlast⟩ := List.append_inj' hsplit rfl
    exact Or.inr ⟨time, List.singleton_inj.mp hlast, hcount, hrelease⟩
  · rw [List.concat_eq_append, ← List.cons_append, ← List.append_assoc] at hsplit
    exact Or.inl ⟨past, time, rest, (List.append_inj' hsplit rfl).1, hcount, hrelease⟩

/-- The entries of the ring keep their own spots' failures, and every delay is over or
stands at the head of the ring. -/
structure BackoffInv (retryBaseSeconds : Nat) (s : TimedRun) : Prop where
  base : s.run.reporter.retryBaseSeconds = retryBaseSeconds
  wellFormed : s.run.reporter.queue.WellFormed
  inFlight : ∀ item, s.run.point = .sending item →
    s.run.reporter.queue.contents.head? = some item
  own : ∀ position item, s.run.reporter.queue.contents[position]? = some item →
    item.attempts = UInt32.ofNat
      (failures s.history (s.run.removed.length + position)).length ∧
    item.retryAt =
      dueTime retryBaseSeconds (failures s.history (s.run.removed.length + position))
  unfailed : ∀ spot, s.run.removed.length < spot ∨
    s.run.removed.length + s.run.reporter.queue.contents.length ≤ spot →
      failures s.history spot = []
  held : ∀ spot release, HoldsBack (retryBase retryBaseSeconds) s.history spot release →
    release ≤ s.clock ∨ (∀ item, s.run.point ≠ .sending item) ∧
      ∃ item, s.run.reporter.queue.contents.head? = some item ∧ release ≤ item.retryAt
  spaced : EachAfter (BacksOff (retryBase retryBaseSeconds)) s.history

/-- The first half of a step in which the transport returns: the outcome is entered into the
queue, at the time of the failure if it is one, and the uploader is back at the head of its
loop. -/
def settled (s : TimedRun) (item : WsprReportQueueItem) (result : WsprUploadResult)
    (failedAt : Int) : TimedRun :=
  let reporter := uploaderResult s.run.reporter item result failedAt
  { run := {s.run with
      reporter := reporter
      point := .start
      removed := if reporter.queue.count < s.run.reporter.queue.count then
          s.run.removed ++ (queuedUrls s.run.reporter).head?.toList
        else s.run.removed}
    clock := failedAt
    history := s.history ++ failureEvents s.run (.transportReturns result failedAt failedAt) }

/-- The uploader from the head of its loop on. -/
def looped (s : TimedRun) (now : Int) : TimedRun :=
  { run := {s.run with point := uploaderLoop s.run.reporter now}
    clock := now
    history := s.history ++ match uploaderLoop s.run.reporter now with
      | .sending _ => [.called s.run.removed.length now]
      | _ => [] }

section Step

variable {retryBaseSeconds : Nat} {s u : TimedRun}

/-- What the uploader does when it wakes: it waits on, ends, or hands the oldest spot to the
transport, which it does no earlier than the spot is due. -/
theorem looped_inv (hinv : BackoffInv retryBaseSeconds s) {now : Int} (hclock : s.clock ≤ now) :
    BackoffInv retryBaseSeconds (looped s now) := by
  cases hpoint : uploaderLoop s.run.reporter now with
  | sending item =>
      obtain ⟨hhead, hdue⟩ := uploaderLoop_sending hinv.wellFormed hpoint
      have hover : ∀ spot release, HoldsBack (retryBase retryBaseSeconds) s.history spot release →
          release ≤ now := by
        intro spot release hholds
        rcases hinv.held spot release hholds with hpast | ⟨-, head, hfirst, hlater⟩
        · exact Int.le_trans hpast hclock
        · rw [hhead] at hfirst
          cases hfirst
          exact Int.le_trans hlater hdue
      have hhistory : (looped s now).history = s.history ++ [.called s.run.removed.length now] := by
        simp only [looped, hpoint]
      have hfailures (spot : Nat) : failures (looped s now).history spot =
          failures s.history spot := by
        rw [hhistory, failures_concat, List.append_nil]
      refine ⟨hinv.base, hinv.wellFormed, ?_, ?_, ?_, ?_, ?_⟩
      · exact fun sent hsent => (uploaderLoop_sending hinv.wellFormed hsent).1
      · simp only [hfailures]
        exact hinv.own
      · simp only [hfailures]
        exact hinv.unfailed
      · intro spot release hholds
        rw [hhistory] at hholds
        rcases hholds.concat with hbefore | ⟨time, habsurd, -⟩
        · exact Or.inl (hover spot release hbefore)
        · cases habsurd
      · rw [hhistory]
        exact hinv.spaced.concat fun earlier _ release hholds => hover earlier release hholds
  | start | waiting | timedWaiting | exited =>
      have hhistory : (looped s now).history = s.history := by
        simp only [looped, hpoint, List.append_nil]
      have hstays : ∀ item, (looped s now).run.point ≠ .sending item := by
        intro item hsends
        rw [looped, hpoint] at hsends
        cases hsends
      refine ⟨hinv.base, hinv.wellFormed, ?_, ?_, ?_, ?_, ?_⟩
      · exact fun item hsends => absurd hsends (hstays item)
      · rw [hhistory]
        exact hinv.own
      · rw [hhistory]
        exact hinv.unfailed
      · rw [hhistory]
        intro spot release hholds
        rcases hinv.held spot release hholds with hpast | ⟨-, hhead⟩
        · exact Or.inl (Int.le_trans hpast hclock)
        · exact Or.inr ⟨hstays, hhead⟩
      · rw [hhistory]
        exact hinv.spaced

theorem uploaderResult_base (reporter : WsprReporter) (item : WsprReportQueueItem)
    (result : WsprUploadResult) (now : Int) :
    (uploaderResult reporter item result now).retryBaseSeconds = reporter.retryBaseSeconds := by
  unfold uploaderResult
  split
  · rfl
  · cases result <;> rfl

/-- While a spot is being sent, every delay so far is over. -/
theorem BackoffInv.over (hinv : BackoffInv retryBaseSeconds s) {item : WsprReportQueueItem}
    (hpoint : s.run.point = .sending item) {spot : Nat} {release : Int}
    (hholds : HoldsBack (retryBase retryBaseSeconds) s.history spot release) :
    release ≤ s.clock :=
  (hinv.held spot release hholds).resolve_right fun h => h.1 item hpoint

theorem dueTime_concat (failed : List Int) (time : Int) :
    dueTime retryBaseSeconds (failed ++ [time]) =
      time + retryDelay retryBaseSeconds (UInt32.ofNat (failed.length + 1)) := by
  rw [dueTime, List.getLast?_concat, List.length_append, List.length_singleton]

/-- A failure is counted in the entry at the head and nowhere else. -/
theorem settled_retry_inv (hinv : BackoffInv retryBaseSeconds s) {item : WsprReportQueueItem}
    (hpoint : s.run.point = .sending item) {failedAt : Int} (hclock : s.clock ≤ failedAt) :
    BackoffInv retryBaseSeconds (settled s item .retry failedAt) := by
  obtain ⟨hwf, -, rest, hcontents, -, hretried⟩ :=
    uploaderResult_contents hinv.wellFormed (hinv.inFlight item hpoint) .retry failedAt
  have hkept := hretried rfl
  have hremoved : (settled s item .retry failedAt).run.removed = s.run.removed :=
    uploaderResult_urls hinv.wellFormed (hinv.inFlight item hpoint) .retry failedAt _
  have hhistory : (settled s item .retry failedAt).history =
      s.history ++ [.retried s.run.removed.length failedAt] := rfl
  have hfailures {spot : Nat} (hspot : s.run.removed.length ≠ spot) :
      failures (settled s item .retry failedAt).history spot = failures s.history spot := by
    rw [hhistory, failures_concat]
    simp only [hspot, if_false, List.append_nil]
  have hfailed : failures (settled s item .retry failedAt).history s.run.removed.length =
      failures s.history s.run.removed.length ++ [failedAt] := by
    rw [hhistory, failures_concat]
    simp only [if_true]
  obtain ⟨hattempts, -⟩ := hinv.own 0 item (by rw [hcontents]; rfl)
  rw [Nat.add_zero] at hattempts
  have hnext : item.attempts + 1 =
      UInt32.ofNat ((failures s.history s.run.removed.length).length + 1) := by
    rw [hattempts, UInt32.ofNat_add]
    rfl
  refine ⟨(uploaderResult_base _ _ _ _).trans hinv.base, hwf, fun _ h => (nomatch h), ?_, ?_,
    ?_, hinv.spaced.concat trivial⟩
  · intro position entry hentry
    rw [settled, hkept] at hentry
    rw [hremoved]
    cases position with
    | zero =>
        cases hentry
        rw [Nat.add_zero, hfailed, dueTime_concat, List.length_append, List.length_singleton]
        exact ⟨hnext, by rw [hnext, hinv.base]⟩
    | succ position =>
        rw [hfailures (by omega)]
        refine hinv.own (position + 1) entry ?_
        rw [hcontents]
        exact hentry
  · intro spot hspot
    rw [hremoved, settled, hkept, List.length_cons] at hspot
    rw [hfailures (by omega)]
    refine hinv.unfailed spot ?_
    rw [hcontents, List.length_cons]
    exact hspot
  · intro spot release hholds
    rw [hhistory] at hholds
    rcases hholds.concat with hbefore | ⟨time, hevent, hfew, hrelease⟩
    · exact Or.inl (Int.le_trans (hinv.over hpoint hbefore) hclock)
    · obtain ⟨rfl, rfl⟩ := UploadEvent.retried.inj hevent
      refine Or.inr ⟨fun _ h => (nomatch h), _, congrArg List.head? hkept, ?_⟩
      rw [hrelease, ← retryDelay_eq retryBaseSeconds hfew, hnext, hinv.base]

/-- A settled spot leaves, and the next one has no failures. -/
theorem settled_removed_inv (hinv : BackoffInv retryBaseSeconds s) {item : WsprReportQueueItem}
    (hpoint : s.run.point = .sending item) {result : WsprUploadResult} (hresult : result ≠ .retry)
    {failedAt : Int} (hclock : s.clock ≤ failedAt) :
    BackoffInv retryBaseSeconds (settled s item result failedAt) := by
  obtain ⟨hwf, -, rest, hcontents, hsettled, -⟩ :=
    uploaderResult_contents hinv.wellFormed (hinv.inFlight item hpoint) result failedAt
  have hkept := hsettled hresult
  have hremoved : (settled s item result failedAt).run.removed.length =
      s.run.removed.length + 1 := by
    rw [settled, uploaderResult_urls hinv.wellFormed (hinv.inFlight item hpoint), if_neg hresult,
      List.length_append, List.length_singleton]
  have hhistory : (settled s item result failedAt).history = s.history := by
    cases result with
    | retry => exact absurd rfl hresult
    | ok | rejected => exact List.append_nil _
  refine ⟨(uploaderResult_base _ _ _ _).trans hinv.base, hwf, ?_, ?_, ?_, ?_,
    hhistory ▸ hinv.spaced⟩
  · intro _ hsending
    cases hsending
  · intro position entry hentry
    rw [settled, hkept] at hentry
    rw [hhistory, hremoved, Nat.add_assoc, Nat.add_comm 1]
    refine hinv.own (position + 1) entry ?_
    rw [hcontents]
    exact hentry
  · intro spot hspot
    rw [hremoved, settled, hkept] at hspot
    rw [hhistory]
    refine hinv.unfailed spot ?_
    rw [hcontents, List.length_cons]
    omega
  · intro spot release hholds
    rw [hhistory] at hholds
    exact Or.inl (Int.le_trans (hinv.over hpoint hholds) hclock)

/-- An accepted spot goes behind the others, without failures. -/
theorem enqueued_inv (hinv : BackoffInv retryBaseSeconds s) {report : WsprReport}
    {t : UploaderRun} (hstep : uploaderStep s.run (.enqueue report) = some t) :
    BackoffInv retryBaseSeconds ⟨t, s.clock, s.history⟩ := by
  simp only [uploaderStep] at hstep
  rcases wsprReporterEnqueue_cases s.run.reporter report with
    hrefused | ⟨url, hurl, hroom, haccepted⟩
  · rw [hrefused] at hstep
    cases hstep
    exact ⟨hinv.base, hinv.wellFormed, hinv.inFlight, hinv.own, hinv.unfailed, hinv.held,
      hinv.spaced⟩
  rw [haccepted, hurl] at hstep
  cases hstep
  have hlt : s.run.reporter.queue.count < s.run.reporter.queue.capacity :=
    Nat.lt_of_le_of_ne hinv.wellFormed.2 hroom
  have hcontents := RingBuffer.contents_push hinv.wellFormed hlt
    ⟨url, s.run.reporter.nextSequence + 1, 0, 0⟩
  have hhead {item last : WsprReportQueueItem}
      (hitem : s.run.reporter.queue.contents.head? = some item) :
      (s.run.reporter.queue.contents ++ [last]).head? = some item := by
    rw [List.head?_append, hitem]
    rfl
  refine ⟨hinv.base, RingBuffer.push_wellFormed hinv.wellFormed hlt _, ?_, ?_, ?_, ?_,
    hinv.spaced⟩
  · intro item hsends
    rw [hcontents]
    exact hhead (hinv.inFlight item hsends)
  · intro position item hitem
    rw [hcontents] at hitem
    rcases Nat.lt_or_ge position s.run.reporter.queue.contents.length with hold | hnew
    · rw [List.getElem?_append_left hold] at hitem
      exact hinv.own position item hitem
    · rw [List.getElem?_append_right hnew] at hitem
      have hnone := hinv.unfailed (s.run.removed.length + position)
        (Or.inr (Nat.add_le_add_left hnew _))
      obtain rfl := List.mem_singleton.mp (List.mem_of_getElem? hitem)
      dsimp only
      rw [hnone]
      exact ⟨rfl, rfl⟩
  · intro spot hspot
    rw [hcontents, List.length_append, List.length_singleton] at hspot
    exact hinv.unfailed spot (hspot.imp_right fun h => Nat.le_trans (Nat.le_succ _) h)
  · intro spot release hholds
    rcases hinv.held spot release hholds with hpast | ⟨hidle, item, hitem, hlater⟩
    · exact Or.inl hpast
    · refine Or.inr ⟨hidle, item, ?_, hlater⟩
      rw [hcontents]
      exact hhead hitem

/-- Each step keeps what is said of the due times: a failed call sets the time of the next one
from the number of failures of that spot, and nothing else moves it. -/
theorem timedStep_inv (hinv : BackoffInv retryBaseSeconds s) {a : UploaderAction}
    (hstep : timedStep s a = some u) : BackoffInv retryBaseSeconds u := by
  obtain ⟨clock, hclock, hrest⟩ := Option.bind_eq_some_iff.mp hstep
  obtain ⟨t, hrun, hu⟩ := Option.bind_eq_some_iff.mp hrest
  obtain rfl := Option.some.inj hu
  cases a with
  | enqueue report =>
      obtain rfl := Option.some.inj hclock
      have hquiet : failureEvents s.run (.enqueue report) ++ callEvents (.enqueue report) t = [] :=
        rfl
      rw [List.append_assoc, hquiet, List.append_nil]
      exact enqueued_inv hinv hrun
  | wake now =>
      simp only [readClock, Option.ite_none_right_eq_some, Option.some.injEq] at hclock
      obtain ⟨hlater, rfl⟩ := hclock
      have hnext : t = {s.run with point := uploaderLoop s.run.reporter now} := by
        cases hpoint : s.run.point with
        | start | waiting | timedWaiting =>
            simp only [uploaderStep, hpoint, Option.some.injEq] at hrun
            exact hrun.symm
        | sending | exited => simp [uploaderStep, hpoint] at hrun
      subst hnext
      have hloop := looped_inv hinv hlater
      simp only [failureEvents, List.append_nil]
      cases hpoint : uploaderLoop s.run.reporter now with
      | start | waiting | timedWaiting | sending | exited =>
          simpa only [looped, callEvents, hpoint] using hloop
  | transportReturns result failedAt now =>
      simp only [readClock, Option.ite_none_right_eq_some, Option.some.injEq] at hclock
      obtain ⟨⟨hfailed, hlater⟩, rfl⟩ := hclock
      cases hpoint : s.run.point with
      | start | waiting | timedWaiting | exited => simp [uploaderStep, hpoint] at hrun
      | sending item =>
          simp only [uploaderStep, hpoint, Option.some.injEq] at hrun
          subst hrun
          have hsettled : BackoffInv retryBaseSeconds (settled s item result failedAt) := by
            rcases Decidable.em (result = .retry) with rfl | hresult
            · exact settled_retry_inv hinv hpoint hfailed
            · exact settled_removed_inv hinv hpoint hresult hfailed
          have hloop := looped_inv hsettled hlater
          have hevents : failureEvents s.run (.transportReturns result failedAt failedAt) =
              failureEvents s.run (.transportReturns result failedAt now) := by
            cases result <;> rfl
          simp only [looped, settled, hevents] at hloop
          cases hnext : uploaderLoop (uploaderResult s.run.reporter item result failedAt) now with
          | start | waiting | timedWaiting | sending | exited =>
              simpa only [callEvents, hnext] using hloop
  | stop =>
      obtain rfl := Option.some.inj hclock
      cases hrun
      have hquiet : failureEvents s.run .stop ++ callEvents .stop
          {s.run with reporter := {s.run.reporter with stopping := true}} = [] := rfl
      rw [List.append_assoc, hquiet, List.append_nil]
      exact ⟨hinv.base, hinv.wellFormed, hinv.inFlight, hinv.own, hinv.unfailed, hinv.held,
        hinv.spaced⟩

end Step

theorem timedStart_inv (endpoint version : CString) (retryBaseSeconds : Nat) (now : Int) :
    BackoffInv retryBaseSeconds (timedStart endpoint version retryBaseSeconds now) where
  base := rfl
  wellFormed := ⟨Nat.zero_lt_succ _, Nat.zero_le _⟩
  inFlight := fun _ h => nomatch h
  own := fun _ _ h => nomatch h
  unfailed := fun _ _ => rfl
  held := by
    rintro spot release ⟨past, time, rest, hsplit, -⟩
    cases past <;> cases hsplit
  spaced := eachAfter_nil

/-- In every run the `k`-th failure of a spot, at a time `t`, keeps it and later spots from the
transport until `t + min 900 (b * 2 ^ (k - 1))`; and when a spot is due depends on no other
spot's failures. The doubling loop ends at 900 s, so that no delay wraps around. -/
theorem upload_backs_off {endpoint version : CString} {retryBaseSeconds : Nat} {startedAt : Int}
    {s : TimedRun}
    (hs : Reachable timedStep anyStep (timedStart endpoint version retryBaseSeconds startedAt) s) :
    EachAfter (BacksOff (retryBase retryBaseSeconds)) s.history ∧
      (∀ position item, s.run.reporter.queue.contents[position]? = some item →
        item.retryAt =
          dueTime retryBaseSeconds (failures s.history (s.run.removed.length + position))) ∧
      ∀ now, s.run.reporter.stopping = false → s.run.reporter.queue.count ≠ 0 →
        ((∃ item, uploaderLoop s.run.reporter now = .sending item) ↔
          dueTime retryBaseSeconds (failures s.history s.run.removed.length) ≤ now) := by
  have hinv : BackoffInv retryBaseSeconds s :=
    Reachable.invariant (timedStart_inv endpoint version retryBaseSeconds startedAt)
      (fun _ _ _ _ hinv _ hstep => timedStep_inv hinv hstep) s hs
  refine ⟨hinv.spaced, fun position item hitem => (hinv.own position item hitem).2, ?_⟩
  intro now hrunning hcount
  have hhead := RingBuffer.contents_head? hinv.wellFormed (Nat.pos_of_ne_zero hcount)
  obtain ⟨-, hdue⟩ := hinv.own 0 _ (List.head?_eq_getElem?.symm.trans hhead)
  rw [Nat.add_zero] at hdue
  rw [uploaderLoop, hrunning, if_neg Bool.false_ne_true, if_neg hcount, ← hdue]
  dsimp only
  split
  · rename_i hearly
    refine ⟨fun ⟨_, h⟩ => (nomatch h), fun hlate => absurd hearly (Int.not_lt.mpr hlate)⟩
  · rename_i hlate
    exact ⟨fun _ => Int.not_lt.mp hlate, fun _ => ⟨_, rfl⟩⟩

/-- The second spot waits for the first one's two failures, but has no delay of its own. -/
def twiceRetriedActions : List UploaderAction :=
  let spot (call : CString) : WsprReport :=
    ⟨bytes "N0CALL/P", bytes "AA00aa", bytes "150426", bytes "0918", call, bytes "IO91",
      bytes "37", .finite false 14 0, .finite false 14 0, .finite true 21 0, .finite false 0 0,
      .finite true 1 0⟩
  [.enqueue (spot (bytes "G8VDQ")), .wake 100, .transportReturns .retry 101 101,
    .enqueue (spot (bytes "K1TE")), .wake 103, .wake 106, .transportReturns .retry 107 107,
    .wake 117, .transportReturns .rejected 118 118]

theorem twiceRetriedActions_run :
    (execute timedStep (timedStart (bytes "https://wsprnet.org/post") (bytes "airhf-060") 0 90)
      twiceRetriedActions).isSome = true := by
  decide +kernel

/-- A spot that fails twice before the server rejects it, and another one behind it. -/
theorem twiceRetried_backs_off : EachAfter (BacksOff 5)
    ((execute timedStep (timedStart (bytes "https://wsprnet.org/post") (bytes "airhf-060") 0 90)
      twiceRetriedActions).get twiceRetriedActions_run).history :=
  (upload_backs_off
    (.get_execute twiceRetriedActions (allAllowed_anyStep _ _ _) twiceRetriedActions_run)).1

end AirspyhfWsprd.Wspr
