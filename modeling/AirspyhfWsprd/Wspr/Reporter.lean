import AirspyhfWsprd.Library.RingBuffer
import AirspyhfWsprd.Library.Transition
import AirspyhfWsprd.Wspr.ReportUrl

/-!
The WSPRnet uploader of `reporter.c`. Producers append to a ring of formatted
URLs while the uploader thread sends a copy of the item at its head with the
mutex released. What a thread does while it holds the mutex is one step.
-/

namespace AirspyhfWsprd.Wspr

open Library

/-- `enum wspr_upload_result` -/
inductive WsprUploadResult where
  | ok
  | retry
  | rejected
deriving DecidableEq

/-- `struct wspr_report_queue_item` -/
structure WsprReportQueueItem where
  url : CString
  sequence : UInt64
  attempts : UInt32
  retryAt : Int
deriving DecidableEq

/-- `struct wspr_reporter`, started. The ring is the fields `queue`, `head`,
`count` and `capacity`. `retryBaseSeconds` is the number in the environment
variable that `retry_delay` reads, 0 when it is not set. -/
structure WsprReporter where
  queue : RingBuffer WsprReportQueueItem
  nextSequence : UInt64
  stopping : Bool
  endpoint : CString
  version : CString
  retryBaseSeconds : Nat

def wsprReportUrlSize : Nat := 768

def wsprReportQueueCapacity : Nat := 4096

def maxRetryDelaySeconds : Nat := 900

/-- The reporter `wspr_reporter_start` leaves behind. -/
def wsprReporterStart (endpoint version : CString) (retryBaseSeconds : Nat) : WsprReporter where
  queue := ⟨fun _ => ⟨[], 0, 0, 0⟩, 0, 0, wsprReportQueueCapacity⟩
  nextSequence := 0
  stopping := false
  endpoint := endpoint
  version := version
  retryBaseSeconds := retryBaseSeconds

/-- `wspr_reporter_enqueue`: the value it returns and the reporter behind it. The URL is
formatted before the mutex is taken; a full or stopping queue takes no spot and gives away no
sequence number. -/
def wsprReporterEnqueue (reporter : WsprReporter) (report : WsprReport) :
    Bool × WsprReporter :=
  match wsprReportFormatUrl wsprReportUrlSize reporter.endpoint reporter.version report with
  | none => (false, reporter)
  | some url =>
      if reporter.queue.count = reporter.queue.capacity ∨ reporter.stopping then (false, reporter)
      else
        let sequence := reporter.nextSequence + 1
        (true, {reporter with
          nextSequence := sequence
          queue := reporter.queue.push ⟨url, sequence, 0, 0⟩})

/-- The rounds of the doubling loop of `retry_delay`. -/
def retryDelayLoop : (rounds : Nat) → (delay : Nat) → Nat
  | 0, delay => delay
  | rounds + 1, delay =>
      if delay < maxRetryDelaySeconds then
        retryDelayLoop rounds (min (delay * 2) maxRetryDelaySeconds)
      else delay

/-- `retry_delay` -/
def retryDelay (retryBaseSeconds : Nat) (attempts : UInt32) : Nat :=
  retryDelayLoop (attempts.toNat - 1)
    (if 1 ≤ retryBaseSeconds ∧ retryBaseSeconds ≤ 60 then retryBaseSeconds else 5)

/-- Where the uploader thread stands while it does not hold the mutex. -/
inductive UploaderPoint where
  | start
  | waiting
  | timedWaiting
  | sending (item : WsprReportQueueItem)
  | exited

/-- From the head of the loop to the next release of the mutex. A wait that ends
tests its condition again, which leads to the same place. -/
def uploaderLoop (reporter : WsprReporter) (now : Int) : UploaderPoint :=
  if reporter.stopping then .exited
  else if reporter.queue.count = 0 then .waiting
  else
    let item := reporter.queue.slots reporter.queue.head
    if now < item.retryAt then .timedWaiting else .sending item

/-- What the uploader makes of a transport result once it holds the mutex again;
`now` is the time it reads for the next attempt. -/
def uploaderResult (reporter : WsprReporter) (item : WsprReportQueueItem)
    (result : WsprUploadResult) (now : Int) : WsprReporter :=
  if reporter.queue.count = 0 ∨
      (reporter.queue.slots reporter.queue.head).sequence ≠ item.sequence then reporter
  else
    match result with
    | .ok => {reporter with queue := reporter.queue.pop}
    | .rejected => {reporter with queue := reporter.queue.pop}
    | .retry => {reporter with queue := reporter.queue.modifyHead fun head =>
        {head with
          attempts := head.attempts + 1
          retryAt := now + retryDelay reporter.retryBaseSeconds (head.attempts + 1)}}

/-- The steps of the program. -/
inductive UploaderAction where
  | enqueue (report : WsprReport)
  | wake (now : Int)
  | transportReturns (result : WsprUploadResult) (failedAt now : Int)
  | stop

/-- The reporter with the uploader's place in its code, the URLs accepted so far
and the URLs removed so far. -/
structure UploaderRun where
  reporter : WsprReporter
  point : UploaderPoint
  accepted : List CString
  removed : List CString

def uploaderStart (endpoint version : CString) (retryBaseSeconds : Nat) : UploaderRun :=
  ⟨wsprReporterStart endpoint version retryBaseSeconds, .start, [], []⟩

/-- The URLs in the queue, from the head on. -/
def queuedUrls (reporter : WsprReporter) : List CString :=
  reporter.queue.contents.map (·.url)

/-- One step. The URL that a result removes is the one at the head of the queue
before the step. -/
def uploaderStep (s : UploaderRun) : UploaderAction → Option UploaderRun
  | .enqueue report =>
      let (accepted, reporter) := wsprReporterEnqueue s.reporter report
      some {s with
        reporter := reporter
        accepted := if accepted then s.accepted ++ (wsprReportFormatUrl wsprReportUrlSize
            s.reporter.endpoint s.reporter.version report).toList
          else s.accepted}
  | .wake now =>
      match s.point with
      | .start | .waiting | .timedWaiting =>
          some {s with point := uploaderLoop s.reporter now}
      | _ => none
  | .transportReturns result failedAt now =>
      match s.point with
      | .sending item =>
          let reporter := uploaderResult s.reporter item result failedAt
          some {s with
            reporter := reporter
            point := uploaderLoop reporter now
            removed := if reporter.queue.count < s.reporter.queue.count then
                s.removed ++ (queuedUrls s.reporter).head?.toList
              else s.removed}
      | _ => none
  | .stop => some {s with reporter := {s.reporter with stopping := true}}

end AirspyhfWsprd.Wspr
