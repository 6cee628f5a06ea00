import AirspyhfWsprd.Psk.PacketHistory

/-!
When a packet goes out without the template sets. A collector that has missed the
templates cannot read it, and nothing comes back over UDP, so the thread counts the
packets since the start or the last failure and keeps the time of the last templates.
The packet counter has 32 bits; when it wraps around, templates are sent again.
-/

namespace AirspyhfWsprd.Psk

open Library

/-- The times of the packets with templates that were sent since the start or the last
failed send. -/
def templateSends (history : List PacketEvent) : List Int :=
  history.foldl (fun times event =>
    match event with
    | .handed _ _ => times
    | .returned _ false _ => []
    | .returned packet true now => if carriesTemplates packet then times ++ [now] else times) []

/-- A packet has the templates in it, or three packets with them were sent since the
start or the last failed send, the last of them less than an hour before it was built. -/
def TemplatesKnown (before : List PacketEvent) : PacketEvent → Prop
  | .handed packet builtAt => carriesTemplates packet = true ∨
      3 ≤ (templateSends before).length ∧
        ∃ last ∈ (templateSends before).getLast?, builtAt - last < pskReportTemplateSeconds
  | .returned _ _ _ => True

/-- The counter and the time in the reporter against the history. -/
structure TemplateInv (s : PacketRun) : Prop where
  counted : min s.run.reporter.packetCount.toNat 3 ≤ (templateSends s.history).length
  last : ∀ time ∈ (templateSends s.history).getLast?, s.run.reporter.templatesLastSent = time
  flight : ∀ packetSize count templates, s.run.point = .sending packetSize count templates →
    carriesTemplates (s.run.packet.take packetSize) = templates ∧
      (s.run.reporter.packetCount < 3 → templates = true)
  known : EachAfter TemplatesKnown s.history

theorem templateSends_handed (history : List PacketEvent) (packet : List UInt8) (builtAt : Int) :
    templateSends (history ++ [.handed packet builtAt]) = templateSends history := by
  rw [templateSends, List.foldl_append]
  rfl

theorem templateSends_failed (history : List PacketEvent) (packet : List UInt8) (now : Int) :
    templateSends (history ++ [.returned packet false now]) = [] := by
  rw [templateSends, List.foldl_append]
  rfl

theorem templateSends_sent (history : List PacketEvent) (packet : List UInt8) (now : Int) :
    templateSends (history ++ [.returned packet true now]) =
      if carriesTemplates packet then templateSends history ++ [now]
      else templateSends history := by
  rw [templateSends, List.foldl_append]
  rfl

theorem templatesDue_eq_false {reporter : PskReporter} {now : Int}
    (hdue : templatesDue reporter now = false) :
    3 ≤ reporter.packetCount.toNat ∧
      now - reporter.templatesLastSent < pskReportTemplateSeconds := by
  simp only [templatesDue, Bool.or_eq_false_iff, decide_eq_false_iff_not, ge_iff_le,
    Int.not_le] at hdue
  refine ⟨?_, hdue.2⟩
  have hcount := hdue.1
  rw [UInt32.lt_iff_toNat_lt, Nat.not_lt] at hcount
  exact hcount

section Step

variable {s u : PacketRun} {a : ReporterAction}

/-- A packet without templates is built only when the reporter has counted three. -/
theorem handed_known (hinv : TemplateInv s) {packet : List UInt8} {now : Int}
    (hcarries : carriesTemplates packet = templatesDue s.run.reporter now) :
    TemplatesKnown s.history (.handed packet now) := by
  cases hdue : templatesDue s.run.reporter now with
  | true => exact Or.inl (hcarries.trans hdue)
  | false =>
      obtain ⟨hcount, htime⟩ := templatesDue_eq_false hdue
      have hmany : 3 ≤ (templateSends s.history).length :=
        Nat.le_trans (Nat.le_min.mpr ⟨hcount, Nat.le_refl 3⟩) hinv.counted
      have hne : templateSends s.history ≠ [] :=
        List.length_pos_iff.mp (Nat.lt_of_lt_of_le (by decide) hmany)
      have hlast := List.getLast?_eq_getLast_of_ne_nil hne
      refine Or.inr ⟨hmany, _, hlast, ?_⟩
      rw [← hinv.last _ hlast]
      exact htime

/-- A success counts one packet more; the first three carry templates. -/
theorem sent_counted (hinv : TemplateInv s) {packetSize count : Nat} {templates : Bool}
    (hpoint : s.run.point = .sending packetSize count templates) (now : Int) :
    min (s.run.reporter.packetCount + 1).toNat 3 ≤ (templateSends (s.history ++
      [.returned (s.run.packet.take packetSize) true now])).length := by
  obtain ⟨hcarries, hfirst⟩ := hinv.flight packetSize count templates hpoint
  have hcounted := hinv.counted
  have hnext : (s.run.reporter.packetCount + 1).toNat ≤ s.run.reporter.packetCount.toNat + 1 := by
    rw [UInt32.toNat_add]
    exact Nat.mod_le _ _
  rw [templateSends_sent, hcarries]
  cases templates with
  | true =>
      rw [if_pos rfl, List.length_append, List.length_singleton]
      omega
  | false =>
      have hmany : ¬ s.run.reporter.packetCount < 3 := fun h => nomatch hfirst h
      rw [UInt32.lt_iff_toNat_lt, Nat.not_lt] at hmany
      have hthree : (3 : UInt32).toNat = 3 := rfl
      rw [if_neg Bool.false_ne_true]
      omega

/-- Each step keeps what is said of the templates: the counter of packets and the time of the
last templates speak of the packets that were really sent, and a failure makes the next packets
carry templates again. -/
theorem packetStep_templates (hqueue : ReporterInv u.run) (hinv : TemplateInv s)
    (hstep : packetStep s a = some u) : TemplateInv u := by
  cases packetStep_effect hstep with
  | quiet hsequence hcount hlast hpoint =>
      refine ⟨?_, ?_, ?_, hinv.known⟩
      · rw [hcount]
        exact hinv.counted
      · rw [hlast]
        exact hinv.last
      · intro packetSize count templates hsends
        obtain ⟨hsame, hpacket⟩ := hpoint (hsends ▸ trivial)
        rw [hpacket, hcount]
        exact hinv.flight packetSize count templates (hsame ▸ hsends)
  | @handed t packetSize count now hreporter hpoint =>
      obtain ⟨-, -, hbuilt⟩ := hqueue.flight packetSize count _ hpoint
      obtain ⟨-, -, hcarries⟩ := hbuilt.read
      refine ⟨?_, ?_, ?_, hinv.known.concat (handed_known hinv hcarries)⟩
      · rw [templateSends_handed, hreporter]
        exact hinv.counted
      · rw [templateSends_handed, hreporter]
        exact hinv.last
      · intro size number templates hsends
        rw [hpoint] at hsends
        cases hsends
        refine ⟨hcarries, fun hfew => ?_⟩
        rw [hreporter] at hfew
        simp only [templatesDue, hfew, decide_true, Bool.true_or]
  | @returned packetSize count templates sent now hpoint =>
      cases sent with
      | false =>
          refine ⟨Nat.zero_le _, ?_, fun _ _ _ h => (nomatch h), hinv.known.concat trivial⟩
          rw [templateSends_failed]
          exact nofun
      | true =>
          refine ⟨sent_counted hinv hpoint now, ?_, fun _ _ _ h => (nomatch h),
            hinv.known.concat trivial⟩
          have hcarries := (hinv.flight packetSize count templates hpoint).1
          rw [templateSends_sent, hcarries]
          cases templates with
          | true =>
              rw [if_pos rfl, List.getLast?_concat]
              exact fun time htime => Option.some.inj htime
          | false => exact hinv.last

end Step

/-- In every run, under any clock, a packet goes out without templates only when at least three
packets with them were sent since the start or the last failed send, the last of them within
the hour. The history has the bytes of each packet, so whether templates are in it is read from
the packet itself. -/
theorem packets_without_templates_known {receiverCall receiverGrid software : CString}
    {observationId : UInt32} {startedAt : Int} {reporter : PskReporter}
    (hstart : pskReporterStart receiverCall receiverGrid software observationId startedAt =
      some reporter) {packet : List UInt8} {now : Int} {s : PacketRun}
    (hs : Reachable packetStep anyStep (packetRunStart reporter packet now) s) :
    EachAfter TemplatesKnown s.history := by
  have hcount := (pskReporterStart_counters hstart).2
  have hqueue : ∀ s, Reachable packetStep anyStep (packetRunStart reporter packet now) s →
      ReporterInv s.run := fun _ hs => packetRun_inv hstart hs
  have hbegin : TemplateInv (packetRunStart reporter packet now) := by
    refine ⟨?_, nofun, nofun, eachAfter_nil⟩
    simp [packetRunStart, reporterRunStart, hcount]
  have hinv : ∀ s, Reachable packetStep anyStep (packetRunStart reporter packet now) s →
      TemplateInv s :=
    Reachable.invariant hbegin fun s a u hs hinv _ hstep =>
      packetStep_templates (hqueue u (hs.next trivial hstep)) hinv hstep
  exact (hinv s hs).known

/-- Four packets, the last of them without templates. -/
def fourPacketsActions : List ReporterAction :=
  [bytes "K1TE", bytes "G8VDQ", bytes "ND6P", bytes "W5BIT"].zipIdx.flatMap fun (call, index) =>
    let time : Int := 400 * (index + 1)
    [.enqueue (spot call 3) time, .thread time, .transportReturns true time, .thread time]

theorem fourPacketsActions_run :
    (execute packetStep (packetRunStart exampleReporter [] 0) fourPacketsActions).isSome =
      true := by
  decide +kernel

/-- Three packets with templates, and a fourth without. -/
theorem fourPackets_known : EachAfter TemplatesKnown
    ((execute packetStep (packetRunStart exampleReporter [] 0) fourPacketsActions).get
      fourPacketsActions_run).history :=
  packets_without_templates_known (Option.some_get exampleReporter_starts).symm
    (.get_execute fourPacketsActions (allAllowed_anyStep _ _ _) fourPacketsActions_run)

end AirspyhfWsprd.Psk
