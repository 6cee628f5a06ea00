import Mathlib.Data.List.Chain
import AirspyhfWsprd.Wspr.Reporter

/-!
The upload queue over whole runs: no URL is lost, duplicated or reordered, and a
URL leaves the queue only when a transport call on it has settled it. Only the
uploader changes the head of the queue, so the item it is sending stays there
while producers append behind it.
-/

namespace AirspyhfWsprd.Wspr

open Library

/-- The sequence numbers in the queue, from the head on. -/
def queuedSequences (reporter : WsprReporter) : List UInt64 :=
  reporter.queue.contents.map (·.sequence)

structure QueueInv (s : UploaderRun) : Prop where
  wellFormed : s.reporter.queue.WellFormed
  fifo : s.removed ++ queuedUrls s.reporter = s.accepted
  consecutive : (queuedSequences s.reporter).IsChain fun a b => b = a + 1
  last : ∀ sequence ∈ (queuedSequences s.reporter).getLast?,
    sequence = s.reporter.nextSequence
  inFlight : ∀ item, s.point = .sending item →
    s.reporter.queue.contents.head? = some item

/-- What a single step may do to the queue: remove a head that was sent or rejected, and
nothing else. A retry and a refusal leave it as it is. -/
structure StepKeeps (s : UploaderRun) (a : UploaderAction) (t : UploaderRun) : Prop where
  removal : t.removed = s.removed ∨ ∃ item result failedAt now,
    a = .transportReturns result failedAt now ∧ (result = .ok ∨ result = .rejected) ∧
      s.point = .sending item ∧ t.removed = s.removed ++ [item.url]
  retry : ∀ failedAt now, a = .transportReturns .retry failedAt now →
    t.removed = s.removed ∧ queuedUrls t.reporter = queuedUrls s.reporter ∧
      queuedSequences t.reporter = queuedSequences s.reporter
  refusal : ∀ report, a = .enqueue report → (wsprReporterEnqueue s.reporter report).1 = false →
    t.reporter = s.reporter ∧ t.accepted = s.accepted

theorem uploaderStart_inv (endpoint version : CString) (retryBaseSeconds : Nat) :
    QueueInv (uploaderStart endpoint version retryBaseSeconds) where
  wellFormed := ⟨Nat.zero_lt_succ _, Nat.zero_le _⟩
  fifo := rfl
  consecutive := List.IsChain.nil
  last := fun _ h => nomatch h
  inFlight := fun _ h => nomatch h

/-- The two ways an enqueue ends. -/
theorem wsprReporterEnqueue_cases (reporter : WsprReporter) (report : WsprReport) :
    wsprReporterEnqueue reporter report = (false, reporter) ∨
      ∃ url, wsprReportFormatUrl wsprReportUrlSize reporter.endpoint reporter.version report =
          some url ∧ reporter.queue.count ≠ reporter.queue.capacity ∧
        wsprReporterEnqueue reporter report = (true, {reporter with
          nextSequence := reporter.nextSequence + 1
          queue := reporter.queue.push ⟨url, reporter.nextSequence + 1, 0, 0⟩}) := by
  unfold wsprReporterEnqueue
  split
  · exact Or.inl rfl
  · rename_i url hurl
    split
    · exact Or.inl rfl
    · rename_i hroom
      exact Or.inr ⟨url, hurl, fun h => hroom (Or.inl h), rfl⟩

/-- The loop sends nothing but the item at the head of the queue, once it is due. -/
theorem uploaderLoop_sending {reporter : WsprReporter} {now : Int} {item : WsprReportQueueItem}
    (hwf : reporter.queue.WellFormed) (hpoint : uploaderLoop reporter now = .sending item) :
    reporter.queue.contents.head? = some item ∧ item.retryAt ≤ now := by
  unfold uploaderLoop at hpoint
  split at hpoint
  · cases hpoint
  split at hpoint
  · cases hpoint
  rename_i hcount
  dsimp only at hpoint
  split at hpoint
  · cases hpoint
  · rename_i hdue
    cases hpoint
    exact ⟨RingBuffer.contents_head? hwf (Nat.pos_of_ne_zero hcount), Int.not_lt.mp hdue⟩

/-- The contents of the queue after a transport result for its head. -/
theorem uploaderResult_contents {reporter : WsprReporter} {item : WsprReportQueueItem}
    (hwf : reporter.queue.WellFormed) (hhead : reporter.queue.contents.head? = some item)
    (result : WsprUploadResult) (now : Int) :
    (uploaderResult reporter item result now).queue.WellFormed ∧
      (uploaderResult reporter item result now).nextSequence = reporter.nextSequence ∧
      ∃ rest, reporter.queue.contents = item :: rest ∧
        (result ≠ .retry →
          (uploaderResult reporter item result now).queue.contents = rest) ∧
        (result = .retry →
          (uploaderResult reporter item result now).queue.contents = {item with
            attempts := item.attempts + 1
            retryAt := now + retryDelay reporter.retryBaseSeconds (item.attempts + 1)} ::
              rest) := by
  have hcount : 0 < reporter.queue.count := by
    rw [← RingBuffer.contents_length]
    exact List.length_pos_iff.mpr fun hnil => by rw [hnil] at hhead; cases hhead
  have hslot : reporter.queue.slots reporter.queue.head = item := by
    rw [RingBuffer.contents_head? hwf hcount] at hhead
    exact Option.some.inj hhead
  have hcontents : reporter.queue.contents = item :: reporter.queue.contents.tail :=
    (List.eq_cons_of_mem_head? hhead)
  have hsame : ¬ (reporter.queue.count = 0 ∨
      (reporter.queue.slots reporter.queue.head).sequence ≠ item.sequence) := by
    rw [hslot]
    simp only [ne_eq, not_true_eq_false, or_false]
    omega
  unfold uploaderResult
  simp only [hsame, if_false]
  cases result with
  | ok =>
      refine ⟨RingBuffer.pop_wellFormed hwf, rfl, _, hcontents, fun _ => ?_, fun h => nomatch h⟩
      exact RingBuffer.contents_pop hwf hcount
  | rejected =>
      refine ⟨RingBuffer.pop_wellFormed hwf, rfl, _, hcontents, fun _ => ?_, fun h => nomatch h⟩
      exact RingBuffer.contents_pop hwf hcount
  | retry =>
      refine ⟨hwf, rfl, _, hcontents, fun h => absurd rfl h, fun _ => ?_⟩
      have hhead := RingBuffer.contents_modifyHead hwf hcount fun head =>
        {head with
          attempts := head.attempts + 1
          retryAt := now + retryDelay reporter.retryBaseSeconds (head.attempts + 1)}
      rw [hslot] at hhead
      exact hhead

section Result

variable {reporter : WsprReporter} {item : WsprReportQueueItem}

/-- A retry changes neither the URLs in the queue nor their sequence numbers. -/
theorem uploaderResult_retried (hwf : reporter.queue.WellFormed)
    (hhead : reporter.queue.contents.head? = some item) (now : Int) :
    queuedUrls (uploaderResult reporter item .retry now) = queuedUrls reporter ∧
      queuedSequences (uploaderResult reporter item .retry now) = queuedSequences reporter := by
  obtain ⟨-, -, rest, hcontents, -, hretried⟩ := uploaderResult_contents hwf hhead .retry now
  have hkept := hretried rfl
  constructor
  · rw [queuedUrls, queuedUrls, hkept, hcontents, List.map_cons, List.map_cons]
  · rw [queuedSequences, queuedSequences, hkept, hcontents, List.map_cons, List.map_cons]

/-- Any other result removes the item that was sent. -/
theorem uploaderResult_removed (hwf : reporter.queue.WellFormed)
    (hhead : reporter.queue.contents.head? = some item) {result : WsprUploadResult}
    (hresult : result ≠ .retry) (now : Int) :
    queuedUrls reporter = item.url :: queuedUrls (uploaderResult reporter item result now) ∧
      queuedSequences reporter =
        item.sequence :: queuedSequences (uploaderResult reporter item result now) := by
  obtain ⟨-, -, rest, hcontents, hsettled, -⟩ := uploaderResult_contents hwf hhead result now
  have hkept := hsettled hresult
  constructor
  · rw [queuedUrls, queuedUrls, hkept, hcontents, List.map_cons]
  · rw [queuedSequences, queuedSequences, hkept, hcontents, List.map_cons]

/-- The URLs removed so far, once the result of sending the item is in. -/
theorem uploaderResult_urls (hwf : reporter.queue.WellFormed)
    (hhead : reporter.queue.contents.head? = some item) (result : WsprUploadResult) (now : Int)
    (removed : List CString) :
    (if (uploaderResult reporter item result now).queue.count < reporter.queue.count then
        removed ++ (queuedUrls reporter).head?.toList
      else removed) = if result = .retry then removed else removed ++ [item.url] := by
  have hlength (r : WsprReporter) : r.queue.count = (queuedUrls r).length := by
    rw [queuedUrls, List.length_map, RingBuffer.contents_length]
  rw [hlength, hlength]
  by_cases hresult : result = .retry
  · subst hresult
    have hurls := (uploaderResult_retried hwf hhead now).1
    rw [if_pos rfl, hurls, if_neg (Nat.lt_irrefl _)]
  · have hurls := (uploaderResult_removed hwf hhead hresult now).1
    rw [if_neg hresult, hurls, List.length_cons, if_pos (Nat.lt_succ_self _)]
    rfl

end Result

section Step

variable {s : UploaderRun}

/-- An accepted spot is appended behind all others; the head of the ring, which the uploader
may be sending, stays. -/
theorem enqueue_inv (hinv : QueueInv s) (report : WsprReport) {t : UploaderRun}
    (hstep : uploaderStep s (.enqueue report) = some t) :
    QueueInv t ∧ StepKeeps s (.enqueue report) t := by
  obtain ⟨hwf, hfifo, hconsecutive, hlast, hinFlight⟩ := hinv
  simp only [uploaderStep] at hstep
  rcases wsprReporterEnqueue_cases s.reporter report with
    hrefused | ⟨url, hurl, hroom, haccepted⟩
  · rw [hrefused] at hstep
    cases hstep
    exact ⟨⟨hwf, hfifo, hconsecutive, hlast, hinFlight⟩,
      ⟨Or.inl rfl, fun _ _ h => (nomatch h), fun _ _ _ => ⟨rfl, rfl⟩⟩⟩
  rw [haccepted, hurl] at hstep
  cases hstep
  have hlt : s.reporter.queue.count < s.reporter.queue.capacity :=
    Nat.lt_of_le_of_ne hwf.2 hroom
  have hcontents := RingBuffer.contents_push hwf hlt ⟨url, s.reporter.nextSequence + 1, 0, 0⟩
  refine ⟨⟨RingBuffer.push_wellFormed hwf hlt _, ?_, ?_, ?_, ?_⟩, ?_⟩
  · simp only [queuedUrls, hcontents, List.map_append, ← List.append_assoc, if_true]
    exact congrArg (· ++ [url]) hfifo
  · simp only [queuedSequences, hcontents, List.map_append]
    apply hconsecutive.append (List.isChain_singleton _)
    intro x hx y hy
    rw [hlast x hx]
    simpa using hy.symm
  · intro sequence hsequence
    simp only [queuedSequences, hcontents, List.map_append, List.map_cons, List.map_nil,
      List.getLast?_concat, Option.mem_def, Option.some.injEq] at hsequence
    exact hsequence.symm
  · intro item hitem
    simp only [hcontents]
    rw [List.head?_append, hinFlight item hitem]
    rfl
  · refine ⟨Or.inl rfl, fun _ _ h => (nomatch h), fun report' h hrefused => ?_⟩
    cases h
    rw [haccepted] at hrefused
    cases hrefused

/-- When a call returns, the spot that was sent leaves the ring if the call settled it, and
stays at its head if it is to be tried again. -/
theorem transportReturns_inv (hinv : QueueInv s) (result : WsprUploadResult)
    (failedAt now : Int) {t : UploaderRun}
    (hstep : uploaderStep s (.transportReturns result failedAt now) = some t) :
    QueueInv t ∧ StepKeeps s (.transportReturns result failedAt now) t := by
  obtain ⟨hwf, hfifo, hconsecutive, hlast, hinFlight⟩ := hinv
  cases hpoint : s.point with
  | start | waiting | timedWaiting | exited => simp [uploaderStep, hpoint] at hstep
  | sending item =>
      have hhead := hinFlight item hpoint
      obtain ⟨hwf', hnext, -⟩ := uploaderResult_contents hwf hhead result failedAt
      simp only [uploaderStep, hpoint, Option.some.injEq] at hstep
      rw [uploaderResult_urls hwf hhead] at hstep
      subst hstep
      have hsending : ∀ sent,
          uploaderLoop (uploaderResult s.reporter item result failedAt) now = .sending sent →
          (uploaderResult s.reporter item result failedAt).queue.contents.head? = some sent :=
        fun _ h => (uploaderLoop_sending hwf' h).1
      by_cases hresult : result = .retry
      · subst hresult
        obtain ⟨hurls, hsequences⟩ := uploaderResult_retried hwf hhead failedAt
        simp only [if_true]
        refine ⟨⟨hwf', ?_, ?_, ?_, hsending⟩, Or.inl rfl, fun _ _ _ => ⟨rfl, hurls, hsequences⟩,
          fun _ h => nomatch h⟩
        · exact (congrArg (s.removed ++ ·) hurls).trans hfifo
        · exact hsequences ▸ hconsecutive
        · exact hnext ▸ hsequences ▸ hlast
      · obtain ⟨hurls, hsequences⟩ := uploaderResult_removed hwf hhead hresult failedAt
        rw [hurls] at hfifo
        rw [hsequences] at hconsecutive hlast
        simp only [hresult, if_false]
        refine ⟨⟨hwf', ?_, hconsecutive.tail, ?_, hsending⟩,
          Or.inr ⟨item, result, failedAt, now, rfl, ?_, hpoint, rfl⟩, fun _ _ h => ?_,
          fun _ h => nomatch h⟩
        · rw [List.append_assoc, List.singleton_append]
          exact hfifo
        · intro sequence hsequence
          rw [hnext]
          exact hlast sequence (List.mem_getLast?_cons hsequence)
        · cases result with
          | ok => exact Or.inl rfl
          | rejected => exact Or.inr rfl
          | retry => exact absurd rfl hresult
        · cases h
          exact absurd rfl hresult

/-- A wake-up changes where the uploader stands and hands out a copy of the head, but it takes
nothing off the ring. -/
theorem wake_inv (hinv : QueueInv s) (now : Int) {t : UploaderRun}
    (hstep : uploaderStep s (.wake now) = some t) : QueueInv t ∧ StepKeeps s (.wake now) t := by
  obtain ⟨hwf, hfifo, hconsecutive, hlast, -⟩ := hinv
  have hkeeps : StepKeeps s (.wake now) {s with point := uploaderLoop s.reporter now} :=
    ⟨Or.inl rfl, fun _ _ h => (nomatch h), fun _ h => nomatch h⟩
  have hnext : t = {s with point := uploaderLoop s.reporter now} := by
    cases hpoint : s.point with
    | start | waiting | timedWaiting =>
        simp only [uploaderStep, hpoint, Option.some.injEq] at hstep
        exact hstep.symm
    | sending | exited => simp [uploaderStep, hpoint] at hstep
  subst hnext
  exact ⟨⟨hwf, hfifo, hconsecutive, hlast, fun _ h => (uploaderLoop_sending hwf h).1⟩,
    hkeeps⟩

theorem stop_inv (hinv : QueueInv s) {t : UploaderRun}
    (hstep : uploaderStep s .stop = some t) : QueueInv t ∧ StepKeeps s .stop t := by
  obtain ⟨hwf, hfifo, hconsecutive, hlast, hinFlight⟩ := hinv
  cases hstep
  exact ⟨⟨hwf, hfifo, hconsecutive, hlast, hinFlight⟩,
    ⟨Or.inl rfl, fun _ _ h => (nomatch h), fun _ h => nomatch h⟩⟩

theorem uploaderStep_inv (hinv : QueueInv s) (a : UploaderAction) {t : UploaderRun}
    (hstep : uploaderStep s a = some t) : QueueInv t ∧ StepKeeps s a t := by
  cases a with
  | enqueue report => exact enqueue_inv hinv report hstep
  | wake now => exact wake_inv hinv now hstep
  | transportReturns result failedAt now =>
      exact transportReturns_inv hinv result failedAt now hstep
  | stop => exact stop_inv hinv hstep

end Step

/-- In every run of producers and uploader the removed URLs are a prefix of the
accepted ones and the queue holds the rest in order, under consecutive sequence
numbers; and no step removes, reorders or changes anything but a settled head. -/
theorem upload_queue_keeps_order (endpoint version : CString) (retryBaseSeconds : Nat)
    (s : UploaderRun)
    (hs : Reachable uploaderStep anyStep (uploaderStart endpoint version retryBaseSeconds) s) :
    s.removed <+: s.accepted ∧
      s.removed ++ queuedUrls s.reporter = s.accepted ∧
      s.reporter.queue.count ≤ s.reporter.queue.capacity ∧
      s.removed.length + s.reporter.queue.count = s.accepted.length ∧
      ((queuedSequences s.reporter).IsChain fun a b => b = a + 1) ∧
      ∀ a t, uploaderStep s a = some t → StepKeeps s a t := by
  have hinv : QueueInv s :=
    Reachable.invariant (uploaderStart_inv endpoint version retryBaseSeconds)
      (fun _ a _ _ hinv _ hstep => (uploaderStep_inv hinv a hstep).1) s hs
  refine ⟨⟨_, hinv.fifo⟩, hinv.fifo, hinv.wellFormed.2, ?_, hinv.consecutive,
    fun a t hstep => (uploaderStep_inv hinv a hstep).2⟩
  have hlength := congrArg List.length hinv.fifo
  simpa only [List.length_append, queuedUrls, List.length_map, RingBuffer.contents_length]
    using hlength

/-- Two spots; the first is retried once and uploaded while the second waits. -/
def twoSpots : List UploaderAction :=
  let spot (call : CString) : WsprReport :=
    ⟨bytes "N0CALL/P", bytes "AA00aa", bytes "150426", bytes "0918", call, bytes "IO91",
      bytes "37", .finite false 14 0, .finite false 14 0, .finite true 21 0, .finite false 0 0,
      .finite true 1 0⟩
  [.enqueue (spot (bytes "G8VDQ")), .wake 100, .transportReturns .retry 101 101,
    .enqueue (spot (bytes "K1TE")), .wake 107, .transportReturns .ok 108 108]

def twoSpotsStart : UploaderRun :=
  uploaderStart (bytes "https://wsprnet.org/post") (bytes "airhf-060") 0

theorem twoSpots_runs : (execute uploaderStep twoSpotsStart twoSpots).isSome = true := by
  decide +kernel

/-- Of two spots the first has been sent at the second try, and removed. -/
theorem twoSpots_keep_order :
    ((execute uploaderStep twoSpotsStart twoSpots).get twoSpots_runs).removed <+:
      ((execute uploaderStep twoSpotsStart twoSpots).get twoSpots_runs).accepted ∧
    ((execute uploaderStep twoSpotsStart twoSpots).get twoSpots_runs).removed.length = 1 ∧
    ((execute uploaderStep twoSpotsStart twoSpots).get twoSpots_runs).accepted.length = 2 :=
  ⟨(upload_queue_keeps_order _ _ _ _
      (.get_execute twoSpots (allAllowed_anyStep _ _ _) twoSpots_runs)).1,
    by decide +kernel, by decide +kernel⟩

end AirspyhfWsprd.Wspr
