import AirspyhfWsprd.Bands.AdviceSafety
import AirspyhfWsprd.Library.Transition
import Mathlib.Data.List.Chain

/-!
The hopping loop of `main` and the advisor's thread. The thread publishes plans whenever it likes;
the loop takes the latest one when the frame that comes next begins a dwell, so that all frames of
a dwell are captured on one frequency.
-/

namespace AirspyhfWsprd.Bands

open Library

/-- `wspr_hop_band_at_dwell` -/
def wsprHopBandAtDwell (plan : WsprHopPlan) (utcSeconds : Int) (dwellSeconds : Nat) :
    Option WsprHopBand :=
  if plan.bands.length = 0 ∨ utcSeconds < 0 ∨ dwellSeconds = 0 then none
  else
    let slot := utcSeconds.toNat / dwellSeconds
    plan.bands[slot % plan.bands.length]?

/-- What the loop is started with: the mode, the hop plan, whether the advisor runs, and the
options that `calculate_receiver_frequency` adds to a dial frequency. -/
structure HopSetup where
  ft8 : Bool
  hopPlan : WsprHopPlan
  adaptive : Bool
  shift : Int32
  upconverter : UInt32
  dialfreq : UInt32

/-- `slot_seconds` -/
def HopSetup.slotSeconds (setup : HopSetup) : Nat := if setup.ft8 then 15 else 120

/-- `hop_dwell_seconds` -/
def HopSetup.dwellSeconds (setup : HopSetup) : Nat := if setup.ft8 then 120 else 600

/-- `next_band`, with the advised plan when there is one. -/
def HopSetup.nextBand (setup : HopSetup) (advised : Option WsprHopPlan) (start : Nat) :
    Option WsprHopBand :=
  match advised with
  | some plan =>
      (wsprAdaptiveHopBandAtDwell plan setup.hopPlan start setup.dwellSeconds).1.bind fun pointer =>
        pointer.target plan setup.hopPlan
  | none => wsprHopBandAtDwell setup.hopPlan start setup.dwellSeconds

/-- `tune_hop_band`, with the device's answer. -/
def HopSetup.tuneHopBand (setup : HopSetup) (band : WsprHopBand) (tuned : Bool) : Bool :=
  (calculateReceiverFrequency setup.shift setup.upconverter band.frequencyHz).isSome && tuned

/-- A frame: when it starts, the advised plan in use, the band and `rx_options.dialfreq`. -/
structure HopFrame where
  start : Nat
  plan : Option WsprHopPlan
  band : WsprHopBand
  dialfreq : UInt32

inductive HopEvent where
  | published (plan : WsprHopPlan)
  | taken (plan : WsprHopPlan)
  | captured (frame : HopFrame)

/-- Where `main` is: before the loop, at its top, in front of the choice of a band for the frame
that starts at this time, waiting for that time, or behind the loop. -/
inductive MainPhase where
  | boot
  | waiting
  | selecting (start : Nat)
  | holding (start : Nat) (band : WsprHopBand)
  | stopped
deriving DecidableEq

/-- The advisor's `pending` and `update_ready`, the plan that `main` has taken last, and what has
happened so far. -/
structure HopState where
  phase : MainPhase
  pending : WsprHopPlan
  updateReady : Bool
  advised : Option WsprHopPlan
  dialfreq : UInt32
  history : List HopEvent

def HopSetup.start (setup : HopSetup) : HopState where
  phase := .boot
  pending := .empty
  updateReady := false
  advised := none
  dialfreq := setup.dialfreq
  history := []

inductive HopAction where
  | publish (plan : WsprHopPlan)
  | boot (waited : Bool)
  | next (start : Nat)
  | select (tuned : Bool)
  | capture
  | exit

/-- `wspr_band_advisor_take` -/
def HopState.take (state : HopState) : HopState :=
  if state.updateReady then
    {state with
      updateReady := false
      advised := some state.pending
      history := state.history ++ [.taken state.pending]}
  else state

/-- `advisor_thread` with a new plan -/
def HopState.publish (state : HopState) (plan : WsprHopPlan) : HopState :=
  {state with
    pending := plan
    updateReady := true
    history := state.history ++ [.published plan]}

/-- The loop's choice of a band for the frame at `start`, and the tuning. -/
def HopState.select (setup : HopSetup) (state : HopState) (start : Nat) (tuned : Bool) : HopState :=
  match setup.nextBand state.advised start with
  | none => {state with phase := .stopped}
  | some band =>
      if band.frequencyHz ≠ state.dialfreq then
        if setup.tuneHopBand band tuned then
          {state with phase := .holding start band, dialfreq := band.frequencyHz}
        else {state with phase := .stopped}
      else {state with phase := .holding start band}

/-- A step of the thread or of `main`. In FT8 mode `main` waits for a first plan; `waited` says
that the wait did not fail. -/
def hopStep (setup : HopSetup) (state : HopState) (action : HopAction) : Option HopState :=
  match action, state.phase with
  | .publish plan, _ => if setup.adaptive then some (state.publish plan) else none
  | .boot waited, .boot =>
      let state := if setup.ft8 && setup.adaptive && waited then state.take else state
      some {state with phase := .waiting}
  | .next start, .waiting =>
      let state :=
        if setup.adaptive && start % setup.dwellSeconds == 0 then state.take else state
      some {state with phase := .selecting start}
  | .select tuned, .selecting start => some (state.select setup start tuned)
  | .capture, .holding start band =>
      let frame := ⟨start, state.advised, band, state.dialfreq⟩
      some {state with phase := .waiting, history := state.history ++ [.captured frame]}
  | .exit, _ => some {state with phase := .stopped}
  | _, _ => none

def frames (history : List HopEvent) : List HopFrame :=
  history.filterMap fun event =>
    match event with
    | .captured frame => some frame
    | _ => none

def takenPlans (history : List HopEvent) : List WsprHopPlan :=
  history.filterMap fun event =>
    match event with
    | .taken plan => some plan
    | _ => none

/-- Each frame is due at the start of a slot, behind all frames that were captured. -/
def FrameTimes (setup : HopSetup) (state : HopState) : HopAction → Prop
  | .next start =>
      start % setup.slotSeconds = 0 ∧ ∀ frame ∈ frames state.history, frame.start < start
  | _ => True

instance (setup : HopSetup) (state : HopState) : ∀ action, Decidable (FrameTimes setup state action)
  | .next start =>
      inferInstanceAs (Decidable (start % setup.slotSeconds = 0 ∧
        ∀ frame ∈ frames state.history, frame.start < start))
  | .publish _ | .boot _ | .select _ | .capture | .exit => isTrue trivial

/-- This plan was the last to be published, and none was taken since. -/
def LatestPublished (history : List HopEvent) (plan : WsprHopPlan) : Prop :=
  ∃ older newer, history = older ++ .published plan :: newer ∧
    ∀ event ∈ newer, ∃ frame, event = .captured frame

/-- From one frame to the next the plan stays, unless a dwell begins. -/
def KeepsPlan (setup : HopSetup) (frame next : HopFrame) : Prop :=
  frame.start < next.start ∧ (frame.plan = next.plan ∨ next.start % setup.dwellSeconds = 0)

/-- The frame's band is the one the schedule selects, and the receiver is tuned to it. -/
def OnBand (setup : HopSetup) (frame : HopFrame) : Prop :=
  setup.nextBand frame.plan frame.start = some frame.band ∧
    frame.dialfreq = frame.band.frequencyHz

/-- What a history of the hopping loop keeps, whenever the advisor's thread publishes. -/
structure HopsAtDwell (setup : HopSetup) (history : List HopEvent) : Prop where
  /-- A plan that is taken is the latest, and is not taken again. -/
  taken : EachAfter (fun before event => ∀ plan, event = .taken plan → LatestPublished before plan)
    history
  /-- The plan in use is the one taken last. -/
  used : EachAfter (fun before event => ∀ frame, event = .captured frame →
    frame.plan = (takenPlans before).getLast?) history
  plans : (frames history).IsChain (KeepsPlan setup)
  bands : ∀ frame ∈ frames history, OnBand setup frame
  /-- The frames of a dwell are captured on one frequency. -/
  dwell : ∀ frame ∈ frames history, ∀ other ∈ frames history,
    frame.start / setup.dwellSeconds = other.start / setup.dwellSeconds →
      frame.dialfreq = other.dialfreq

section Steps

variable {setup : HopSetup}

@[simp] theorem frames_published (history : List HopEvent) (plan : WsprHopPlan) :
    frames (history ++ [.published plan]) = frames history := by
  simp [frames]

@[simp] theorem frames_taken (history : List HopEvent) (plan : WsprHopPlan) :
    frames (history ++ [.taken plan]) = frames history := by
  simp [frames]

@[simp] theorem frames_captured (history : List HopEvent) (frame : HopFrame) :
    frames (history ++ [.captured frame]) = frames history ++ [frame] := by
  simp [frames]

@[simp] theorem takenPlans_published (history : List HopEvent) (plan : WsprHopPlan) :
    takenPlans (history ++ [.published plan]) = takenPlans history := by
  simp [takenPlans]

@[simp] theorem takenPlans_taken (history : List HopEvent) (plan : WsprHopPlan) :
    takenPlans (history ++ [.taken plan]) = takenPlans history ++ [plan] := by
  simp [takenPlans]

@[simp] theorem takenPlans_captured (history : List HopEvent) (frame : HopFrame) :
    takenPlans (history ++ [.captured frame]) = takenPlans history := by
  simp [takenPlans]

theorem dwellSeconds_pos (setup : HopSetup) : 0 < setup.dwellSeconds := by
  rw [HopSetup.dwellSeconds]
  split
  · decide
  · decide

/-- With the same plan, two frames of a dwell are on the same band. -/
theorem nextBand_dwell {start other : Nat}
    (hdwell : start / setup.dwellSeconds = other / setup.dwellSeconds)
    (advised : Option WsprHopPlan) :
    setup.nextBand advised start = setup.nextBand advised other := by
  have hpos := dwellSeconds_pos setup
  cases advised with
  | none =>
      have hstart : ¬ ((start : Int) < 0) := by omega
      have hother : ¬ ((other : Int) < 0) := by omega
      simp only [HopSetup.nextBand, wsprHopBandAtDwell, Int.toNat_natCast, hdwell, hstart, hother]
  | some plan =>
      dsimp only [HopSetup.nextBand]
      rw [adaptive_eq_hopAt hpos (Int.natCast_nonneg start),
        adaptive_eq_hopAt hpos (Int.natCast_nonneg other), Int.toNat_natCast, Int.toNat_natCast,
        hdwell]

/-- Frames of one dwell have one plan. -/
def PlanOfDwell (setup : HopSetup) (frame other : HopFrame) : Prop :=
  frame.start / setup.dwellSeconds = other.start / setup.dwellSeconds → frame.plan = other.plan

instance : Std.Symm (PlanOfDwell setup) := ⟨fun _ _ h hdwell => (h hdwell.symm).symm⟩

/-- The plan changes between two frames, one behind the other, only if the dwell does. -/
def SamePlan (setup : HopSetup) (frame other : HopFrame) : Prop :=
  frame.start < other.start ∧ PlanOfDwell setup frame other

theorem KeepsPlan.samePlan {frame next : HopFrame} (h : KeepsPlan setup frame next) :
    SamePlan setup frame next := by
  refine ⟨h.1, fun hdwell => h.2.resolve_right fun hboundary => ?_⟩
  have hpos := dwellSeconds_pos setup
  have hframe := Nat.div_add_mod frame.start setup.dwellSeconds
  have hnext := Nat.div_add_mod next.start setup.dwellSeconds
  have hlt := h.1
  rw [hdwell] at hframe
  omega

theorem SamePlan.trans {frame other next : HopFrame} (h : SamePlan setup frame other)
    (hnext : SamePlan setup other next) : SamePlan setup frame next := by
  refine ⟨h.1.trans hnext.1, fun hdwell => ?_⟩
  have hfirst := Nat.div_le_div_right (c := setup.dwellSeconds) h.1.le
  have hlast := Nat.div_le_div_right (c := setup.dwellSeconds) hnext.1.le
  exact (h.2 (by omega)).trans (hnext.2 (by omega))

instance : Trans (SamePlan setup) (SamePlan setup) (SamePlan setup) := ⟨SamePlan.trans⟩

/-- All frames of a dwell are captured on one frequency. -/
theorem dialfreq_of_dwell {list : List HopFrame} (hplans : list.IsChain (KeepsPlan setup))
    (hbands : ∀ frame ∈ list, OnBand setup frame) :
    ∀ frame ∈ list, ∀ other ∈ list,
      frame.start / setup.dwellSeconds = other.start / setup.dwellSeconds →
        frame.dialfreq = other.dialfreq := by
  have hpairwise : list.Pairwise (SamePlan setup) :=
    List.isChain_iff_pairwise.mp (hplans.imp fun _ _ h => h.samePlan)
  have hplan : ∀ frame ∈ list, ∀ other ∈ list, PlanOfDwell setup frame other :=
    List.Pairwise.forall_of_forall (fun _ _ _ => rfl) (hpairwise.imp fun h => h.2)
  intro frame hframe other hother hdwell
  obtain ⟨hband, hfrequency⟩ := hbands frame hframe
  obtain ⟨hband', hfrequency'⟩ := hbands other hother
  rw [hplan frame hframe other hother hdwell, nextBand_dwell hdwell, hband'] at hband
  rw [hfrequency, hfrequency', Option.some.inj hband]

/-- What the history says about the plans in the state: the one in use is the one taken last,
and a waiting one is the one published last. The other fields hold of all frames captured so
far. -/
structure HopRecorded (setup : HopSetup) (state : HopState) : Prop where
  active : state.advised = (takenPlans state.history).getLast?
  pending : state.updateReady = true → LatestPublished state.history state.pending
  taken : EachAfter (fun before event => ∀ plan, event = .taken plan → LatestPublished before plan)
    state.history
  used : EachAfter (fun before event => ∀ frame, event = .captured frame →
    frame.plan = (takenPlans before).getLast?) state.history
  plans : (frames state.history).IsChain (KeepsPlan setup)
  bands : ∀ frame ∈ frames state.history, OnBand setup frame

/-- The last frame can be followed by one that starts here, with the plan of now. -/
def MayFollow (setup : HopSetup) (state : HopState) (start : Nat) : Prop :=
  ∀ frame ∈ (frames state.history).getLast?,
    frame.start < start ∧ (frame.plan = state.advised ∨ start % setup.dwellSeconds = 0)

/-- What is true in each phase of `main`: between frames the plan of the last frame is still in
use, and once a band is selected it is the one of the schedule and the receiver is tuned to it.
-/
def PhaseHolds (setup : HopSetup) (state : HopState) : Prop :=
  match state.phase with
  | .boot => frames state.history = []
  | .waiting => ∀ frame ∈ (frames state.history).getLast?, frame.plan = state.advised
  | .selecting start => MayFollow setup state start
  | .holding start band =>
      MayFollow setup state start ∧ setup.nextBand state.advised start = some band ∧
        state.dialfreq = band.frequencyHz
  | .stopped => True

theorem HopRecorded.publish {state : HopState} (h : HopRecorded setup state) (plan : WsprHopPlan) :
    HopRecorded setup (state.publish plan) where
  active := by simpa [HopState.publish] using h.active
  pending _ := ⟨state.history, [], rfl, fun _ hevent => absurd hevent List.not_mem_nil⟩
  taken := h.taken.concat fun _ hevent => by cases hevent
  used := h.used.concat fun _ hevent => by cases hevent
  plans := by simpa [HopState.publish] using h.plans
  bands := by simpa [HopState.publish] using h.bands

/-- Taking the pending plan at the beginning of a dwell keeps the history in step with the
state: the plan taken is the last one that was published. -/
theorem HopRecorded.take {state : HopState} (h : HopRecorded setup state) :
    HopRecorded setup state.take := by
  rw [HopState.take]
  split
  · rename_i hready
    constructor
    · simp
    · intro hfalse
      cases hfalse
    · refine h.taken.concat fun plan hplan => ?_
      obtain rfl := HopEvent.taken.inj hplan
      exact h.pending hready
    · exact h.used.concat fun _ hevent => by cases hevent
    · simpa using h.plans
    · simpa using h.bands
  · exact h

/-- A frame that follows the frame before it, on the band that the schedule gives for its
start, is recorded with that band. Where it begins a dwell the plan may have changed; within a
dwell the bands are those of the frame before. -/
theorem HopRecorded.capture {state : HopState} (h : HopRecorded setup state) {start : Nat}
    {band : WsprHopBand} (hfollow : MayFollow setup state start)
    (hband : setup.nextBand state.advised start = some band)
    (hdial : state.dialfreq = band.frequencyHz) (phase : MainPhase) :
    HopRecorded setup {state with
      phase := phase
      history := state.history ++ [.captured ⟨start, state.advised, band, state.dialfreq⟩]} where
  active := by simpa using h.active
  pending hready := by
    obtain ⟨older, newer, hhistory, hnewer⟩ := h.pending hready
    refine ⟨older, newer ++ [.captured ⟨start, state.advised, band, state.dialfreq⟩], ?_, ?_⟩
    · dsimp only
      rw [hhistory, List.append_assoc, List.cons_append]
    · intro event hevent
      rcases List.mem_append.mp hevent with hold | hlast
      · exact hnewer event hold
      · exact ⟨_, List.mem_singleton.mp hlast⟩
  taken := h.taken.concat fun _ hevent => by cases hevent
  used := by
    refine h.used.concat fun frame hframe => ?_
    obtain rfl := HopEvent.captured.inj hframe
    exact h.active
  plans := by
    rw [frames_captured]
    refine h.plans.append (List.isChain_singleton _) fun frame hframe next hnext => ?_
    obtain rfl := Option.some.inj hnext
    exact hfollow frame hframe
  bands := by
    rw [frames_captured]
    intro frame hframe
    rcases List.mem_append.mp hframe with hold | hlast
    · exact h.bands frame hold
    · rw [List.mem_singleton.mp hlast]
      exact ⟨hband, hdial⟩

structure HopInvariant (setup : HopSetup) (state : HopState) : Prop where
  recorded : HopRecorded setup state
  phase : PhaseHolds setup state

/-- The record speaks of the plans and of the history alone, so a step that leaves these as
they are keeps it. -/
theorem HopRecorded.of_same {state next : HopState} (h : HopRecorded setup state)
    (hpending : next.pending = state.pending) (hready : next.updateReady = state.updateReady)
    (hadvised : next.advised = state.advised) (hhistory : next.history = state.history) :
    HopRecorded setup next := by
  constructor
  · rw [hadvised, hhistory]
    exact h.active
  · rw [hpending, hready, hhistory]
    exact h.pending
  · rw [hhistory]
    exact h.taken
  · rw [hhistory]
    exact h.used
  · rw [hhistory]
    exact h.plans
  · rw [hhistory]
    exact h.bands

theorem frames_take (state : HopState) : frames state.take.history = frames state.history := by
  rw [HopState.take]
  split
  · exact frames_taken _ _
  · rfl

theorem phaseHolds_publish {state : HopState} (h : PhaseHolds setup state) (plan : WsprHopPlan) :
    PhaseHolds setup (state.publish plan) := by
  cases hphase : state.phase <;>
    simp only [PhaseHolds, MayFollow, HopState.publish, hphase, frames_published] at h ⊢ <;>
    exact h

/-- In front of the first frame any frame may follow. -/
theorem phaseHolds_booted {state : HopState} (hframes : frames state.history = []) :
    PhaseHolds setup {state with phase := .waiting} := by
  intro frame hframe
  have hnone : frame ∈ (frames state.history).getLast? := hframe
  rw [hframes] at hnone
  cases hnone

/-- The plan is taken for a frame that begins a dwell, and no other. -/
theorem phaseHolds_next {state : HopState} (h : PhaseHolds setup state)
    (hphase : state.phase = .waiting) {start : Nat}
    (hlater : ∀ frame ∈ frames state.history, frame.start < start) :
    PhaseHolds setup {(if setup.adaptive && start % setup.dwellSeconds == 0 then state.take
      else state) with phase := .selecting start} := by
  rw [PhaseHolds, hphase] at h
  intro frame hframe
  split at hframe
  · rename_i hboundary
    rw [frames_take] at hframe
    rw [Bool.and_eq_true, beq_iff_eq] at hboundary
    exact ⟨hlater frame (List.mem_of_mem_getLast? hframe), Or.inr hboundary.2⟩
  · rename_i hother
    simp only [hother]
    exact ⟨hlater frame (List.mem_of_mem_getLast? hframe), Or.inl (h frame hframe)⟩

/-- The chosen band is the schedule's, and the receiver is tuned to it. -/
theorem HopInvariant.select {state : HopState} (h : HopInvariant setup state) {start : Nat}
    (hphase : state.phase = .selecting start) (tuned : Bool) :
    HopInvariant setup (state.select setup start tuned) := by
  have hfollow := h.phase
  rw [PhaseHolds, hphase] at hfollow
  rw [HopState.select]
  cases hband : setup.nextBand state.advised start with
  | none => exact ⟨h.recorded.of_same rfl rfl rfl rfl, trivial⟩
  | some band =>
      dsimp only
      split
      · split
        · exact ⟨h.recorded.of_same rfl rfl rfl rfl, hfollow, hband, rfl⟩
        · exact ⟨h.recorded.of_same rfl rfl rfl rfl, trivial⟩
      · rename_i hsame
        exact ⟨h.recorded.of_same rfl rfl rfl rfl, hfollow, hband, (not_not.mp hsame).symm⟩

/-- What a step can do. -/
theorem hopStep_cases {state next : HopState} {action : HopAction}
    (h : hopStep setup state action = some next) :
    (∃ plan, next = state.publish plan) ∨
    (∃ waited, state.phase = .boot ∧
      next = {(if setup.ft8 && setup.adaptive && waited then state.take else state) with
        phase := .waiting}) ∨
    (∃ start, action = .next start ∧ state.phase = .waiting ∧
      next = {(if setup.adaptive && start % setup.dwellSeconds == 0 then state.take else state) with
        phase := .selecting start}) ∨
    (∃ start tuned, state.phase = .selecting start ∧ next = state.select setup start tuned) ∨
    (∃ start band, state.phase = .holding start band ∧
      next = {state with
        phase := .waiting
        history := state.history ++ [.captured ⟨start, state.advised, band, state.dialfreq⟩]}) ∨
    next = {state with phase := .stopped} := by
  unfold hopStep at h
  split at h
  · split at h
    · exact .inl ⟨_, (Option.some.inj h).symm⟩
    · cases h
  · rename_i hphase
    exact .inr (.inl ⟨_, hphase, (Option.some.inj h).symm⟩)
  · rename_i hphase
    exact .inr (.inr (.inl ⟨_, rfl, hphase, (Option.some.inj h).symm⟩))
  · rename_i hphase
    exact .inr (.inr (.inr (.inl ⟨_, _, hphase, (Option.some.inj h).symm⟩)))
  · rename_i hphase
    exact .inr (.inr (.inr (.inr (.inl ⟨_, _, hphase, (Option.some.inj h).symm⟩))))
  · exact .inr (.inr (.inr (.inr (.inr (Option.some.inj h).symm))))
  · cases h

theorem HopRecorded.take_if {state : HopState} (h : HopRecorded setup state) (condition : Bool) :
    HopRecorded setup (if condition then state.take else state) := by
  cases condition
  · exact h
  · exact h.take

/-- Every step of main and of the advisor's thread keeps the invariant of the hopping loop. The
cases are the actions; only the beginning of a capture adds a frame to the history. -/
theorem hopStep_invariant {state next : HopState} {action : HopAction}
    (h : HopInvariant setup state) (htimes : FrameTimes setup state action)
    (hstep : hopStep setup state action = some next) : HopInvariant setup next := by
  rcases hopStep_cases hstep with ⟨plan, rfl⟩ | ⟨waited, hphase, rfl⟩ |
    ⟨start, rfl, hphase, rfl⟩ | ⟨start, tuned, hphase, rfl⟩ | ⟨start, band, hphase, rfl⟩ | rfl
  · exact ⟨h.recorded.publish plan, phaseHolds_publish h.phase plan⟩
  · refine ⟨(h.recorded.take_if _).of_same rfl rfl rfl rfl, phaseHolds_booted ?_⟩
    have hframes := h.phase
    rw [PhaseHolds, hphase] at hframes
    split
    · rw [frames_take]
      exact hframes
    · exact hframes
  · exact ⟨(h.recorded.take_if _).of_same rfl rfl rfl rfl,
      phaseHolds_next h.phase hphase htimes.2⟩
  · exact h.select hphase tuned
  · have hholds := h.phase
    rw [PhaseHolds, hphase] at hholds
    obtain ⟨hfollow, hband, hdial⟩ := hholds
    refine ⟨h.recorded.capture hfollow hband hdial .waiting, ?_⟩
    intro frame hframe
    rw [frames_captured, List.getLast?_concat] at hframe
    exact (Option.some.inj hframe) ▸ rfl
  · exact ⟨h.recorded.of_same rfl rfl rfl rfl, trivial⟩

theorem hopStart_invariant (setup : HopSetup) : HopInvariant setup setup.start where
  recorded := ⟨rfl, fun h => Bool.noConfusion h, eachAfter_nil, eachAfter_nil, List.isChain_nil,
    fun _ hframe => absurd hframe List.not_mem_nil⟩
  phase := rfl

/-- In every run the plan changes at the beginning of a dwell only, and all frames of a dwell
are captured on the frequency of the band that the schedule selects. Advice may be published at
any moment; the loop looks for it when the dwell changes. -/
theorem hops_at_dwell_in_every_run (setup : HopSetup) {state : HopState}
    (hstate : Reachable (hopStep setup) (FrameTimes setup) setup.start state) :
    HopsAtDwell setup state.history := by
  have h := (Reachable.invariant (hopStart_invariant setup)
    (fun _ _ _ _ h htimes hstep => hopStep_invariant h htimes hstep) state hstate).recorded
  exact ⟨h.taken, h.used, h.plans, h.bands, dialfreq_of_dwell h.plans h.bands⟩

end Steps

def exampleSetup : HopSetup where
  ft8 := false
  hopPlan := examplePlan
  adaptive := true
  shift := 0
  upconverter := 0
  dialfreq := 14095600

/-- Advice arrives within a dwell, is taken at the next one, and the frame at that boundary and
the one behind it are captured on its band. -/
def exampleHops : List HopAction :=
  [.boot true, .next 960, .select true, .publish exampleRanking, .capture, .next 1080, .select true,
    .capture, .next 1200, .select true, .capture, .next 1440, .select true, .capture]

theorem exampleHops_run :
    (execute (hopStep exampleSetup) exampleSetup.start exampleHops).isSome := by decide

/-- Two frames in each of two dwells, and advice that is published in the first and taken in
the second. -/
theorem exampleHops_at_dwell :
    HopsAtDwell exampleSetup ((execute (hopStep exampleSetup) exampleSetup.start exampleHops).get
      exampleHops_run).history :=
  hops_at_dwell_in_every_run exampleSetup
    (.get_execute exampleHops (by decide) exampleHops_run)

end AirspyhfWsprd.Bands
