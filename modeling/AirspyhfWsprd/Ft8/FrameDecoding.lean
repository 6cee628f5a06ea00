import AirspyhfWsprd.Library.ProbedSet
import AirspyhfWsprd.Library.Transition
import AirspyhfWsprd.Ft8.Message

/-!
The loops of `ft8_decode_frame` over the candidates of a frame. The candidates that can be
decoded come with their message; a message is reported once in a frame, which the loop
keeps track of in a table of the messages it has retained.
-/

namespace AirspyhfWsprd.Ft8

open Library Jt9

/-- `FT8_MAX_RESULTS` -/
def ft8MaxResults : Nat := 50

/-- `message->hash % FT8_MAX_RESULTS` -/
def homeIndex (message : FtxMessage) : Nat := message.hash.toNat % ft8MaxResults

/-- Equal hashes and equal payloads. -/
def sameMessage (message stored : FtxMessage) : Bool :=
  stored.hash == message.hash && stored.payload == message.payload

/-- `already_decoded`. The search ends at a free slot or at the message; when every slot
holds another message it answers as if it had found this one. -/
def alreadyDecoded (decoded : Nat → Option FtxMessage) (message : FtxMessage) : Bool :=
  match scan (fun index => !(decoded index).isSome || (decoded index).any (sameMessage message))
      ft8MaxResults (homeIndex message) ft8MaxResults with
  | none => true
  | some index => (decoded index).isSome

/-- `retain_message`; nothing when no slot is free. -/
def retainMessage (decoded : Nat → Option FtxMessage) (message : FtxMessage) :
    Option (Nat → Option FtxMessage) :=
  (scan (fun index => (decoded index).isNone) ft8MaxResults (homeIndex message)
    ft8MaxResults).map fun index => Function.update decoded index (some message)

/-- `ftx_candidate_t` with what the loop computes for it: the frequency's bucket, the
message unless `ftx_decode_candidate` fails, and the numbers of the report. -/
structure FrameCandidate where
  frequencyBucket : Int
  message : Option FtxMessage
  snr : FloatValue
  timeSeconds : FloatValue
  frequencyHz : FloatValue

/-- The variables of `ft8_decode_frame`, the callsign table, and the messages retained so
far, which the code does not list. -/
structure FrameState where
  decoded : Nat → Option FtxMessage
  frequencyDecoded : Nat → Bool
  results : Nat → Ft8DecodeResult
  count : Nat
  table : CallsignTable
  retained : List FtxMessage

def frameStart (results : Nat → Ft8DecodeResult) (table : CallsignTable) : FrameState where
  decoded := fun _ => none
  frequencyDecoded := fun _ => false
  results := results
  count := 0
  table := table
  retained := []

/-- The next result, written over an old one. -/
def fillResult (candidate : FrameCandidate) (message : FtxMessage) (text : CString)
    (table : CallsignTable) (old : Ft8DecodeResult) : Ft8DecodeResult × CallsignTable :=
  let (result, table) := reportMessage message table {old with
    snr := candidate.snr
    dt := candidate.timeSeconds
    audioFrequencyHz := candidate.frequencyHz}
  ({result with message := copyText ftxMaxMessageLength text}, table)

/-- What the loop does with a message that was decoded. A message that is in the table already
is passed over; the callsigns of the others are saved, also of those without a text or without
room. -/
def handleMessage (s : FrameState) (candidate : FrameCandidate) (message : FtxMessage) :
    FrameState :=
  if alreadyDecoded s.decoded message then s
  else
    match ftxMessageDecode message s.table with
    | (none, table) => {s with table := table}
    | (some text, table) =>
        match retainMessage s.decoded message with
        | none => {s with table := table}
        | some decoded =>
            let (result, table) := fillResult candidate message text table (s.results s.count)
            {s with
              decoded := decoded
              results := Function.update s.results s.count result
              count := s.count + 1
              table := table
              retained := s.retained ++ [message]}

/-- The body of the loop over the candidates. A candidate that is decoded marks its frequency,
and later candidates there are passed over. -/
def decodeCandidate (s : FrameState) (candidate : FrameCandidate) : FrameState :=
  let bucket := candidate.frequencyBucket
  if bucket < 0 ∨ bucket ≥ 1024 ∨ s.frequencyDecoded bucket.toNat then s
  else
    match candidate.message with
    | none => s
    | some message =>
        let frequencyDecoded := Function.update s.frequencyDecoded bucket.toNat true
        handleMessage {s with frequencyDecoded := frequencyDecoded} candidate message

def candidateLoop (capacity : Nat) : List FrameCandidate → FrameState → FrameState
  | [], s => s
  | candidate :: rest, s =>
      if s.count < capacity then candidateLoop capacity rest (decodeCandidate s candidate) else s

/-- A pass begins with no frequency decoded. -/
def beginPass (s : FrameState) : FrameState := {s with frequencyDecoded := fun _ => false}

/-- The loop over the passes, each with the candidates that are found for it. -/
def passLoop (capacity : Nat) : List (List FrameCandidate) → FrameState → FrameState
  | [], s => s
  | candidates :: rest, s =>
      if s.count < capacity then
        passLoop capacity rest (candidateLoop capacity candidates (beginPass s))
      else s

/-- What `ft8_decode_frame` leaves: the results, how many there are, and the table. -/
structure FrameResult where
  results : Nat → Ft8DecodeResult
  resultCount : Nat
  table : CallsignTable

/-- The three passes over a frame. -/
def framePasses (capacity : Nat) (first second third : List FrameCandidate)
    (results : Nat → Ft8DecodeResult) (table : CallsignTable) : FrameState :=
  passLoop capacity [first, second, third] (frameStart results table)

/-- `ft8_decode_frame` with the candidates that its passes find. -/
def ft8DecodeFrame (capacity : Nat) (first second third : List FrameCandidate)
    (results : Nat → Ft8DecodeResult) (table : CallsignTable) : FrameResult :=
  let s := framePasses capacity first second third results table
  ⟨s.results, s.count, callsignTableAge s.table⟩

inductive FrameAction where
  | pass
  | candidate (candidate : FrameCandidate)

/-- One turn of a loop, while there is room for a result. -/
def frameStep (capacity : Nat) (s : FrameState) : FrameAction → Option FrameState
  | .pass => if s.count < capacity then some (beginPass s) else none
  | .candidate candidate =>
      if s.count < capacity then some (decodeCandidate s candidate) else none

/-- The table is a set of messages: those retained earlier in the frame. -/
structure Deduplicates (capacity : Nat) (s : FrameState) : Prop where
  known : s.count < capacity → ∀ message,
    (alreadyDecoded s.decoded message = true ↔ message ∈ s.retained)
  retains : s.retained.length < 50 → ∀ message, (retainMessage s.decoded message).isSome
  distinct : s.retained.Nodup
  counted : s.count = s.retained.length
  unreadable : ∀ candidate message, candidate.message = some message →
    (ftxMessageDecode message s.table).1 = none →
      (decodeCandidate s candidate).decoded = s.decoded ∧
        (decodeCandidate s candidate).retained = s.retained ∧
        (decodeCandidate s candidate).count = s.count

variable {capacity : Nat} {s t : FrameState} {decoded : Nat → Option FtxMessage}
  {message : FtxMessage} {retained : List FtxMessage}

theorem homeIndex_lt (message : FtxMessage) : homeIndex message < ft8MaxResults :=
  Nat.mod_lt _ (by decide)

theorem sameMessage_iff {stored : FtxMessage} :
    sameMessage message stored = true ↔ stored = message := by
  rw [sameMessage, Bool.and_eq_true, beq_iff_eq, beq_iff_eq]
  constructor
  · rintro ⟨hhash, hpayload⟩
    cases stored
    cases message
    simp only at hhash hpayload
    subst hhash hpayload
    rfl
  · rintro rfl
    exact ⟨rfl, rfl⟩

/-- The test for a message that was decoded before is the lookup in the probed table of the
frame: the message is known when its slot is filled, or when the table is full without it. -/
theorem alreadyDecoded_eq (decoded : Nat → Option FtxMessage) (message : FtxMessage) :
    alreadyDecoded decoded message =
      match findSlot ft8MaxResults homeIndex decoded message with
      | none => true
      | some index => (decoded index).isSome := by
  have hstop : (fun index => !(decoded index).isSome ||
        (decoded index).any (sameMessage message)) =
      fun index => !(decoded index).isSome || decoded index == some message := by
    funext index
    congr 1
    rw [Bool.eq_iff_iff, beq_iff_eq]
    cases decoded index with
    | none => exact iff_of_false Bool.false_ne_true nofun
    | some stored => rw [Option.any_some, sameMessage_iff, Option.some.injEq]
  rw [alreadyDecoded, hstop]
  rfl

/-- While a slot is free the table answers for the set that it holds. -/
theorem alreadyDecoded_iff (h : HoldsSet ft8MaxResults homeIndex decoded retained)
    (hroom : retained.length < ft8MaxResults) (message : FtxMessage) :
    alreadyDecoded decoded message = true ↔ message ∈ retained := by
  obtain ⟨slot, hfound, hmember⟩ := h.find_iff (homeIndex_lt message) hroom
  rw [alreadyDecoded_eq, hfound]
  exact hmember

/-- A message that is handled is retained, or it changes neither the set nor the count. -/
theorem handleMessage_cases (s : FrameState) (candidate : FrameCandidate) (message : FtxMessage) :
    ((handleMessage s candidate message).decoded = s.decoded ∧
        (handleMessage s candidate message).retained = s.retained ∧
        (handleMessage s candidate message).count = s.count) ∨
      alreadyDecoded s.decoded message = false ∧
        (ftxMessageDecode message s.table).1 ≠ none ∧
        retainMessage s.decoded message = some (handleMessage s candidate message).decoded ∧
        (handleMessage s candidate message).retained = s.retained ++ [message] ∧
        (handleMessage s candidate message).count = s.count + 1 := by
  rw [handleMessage]
  split
  · exact Or.inl ⟨rfl, rfl, rfl⟩
  · rename_i hnew
    split
    · exact Or.inl ⟨rfl, rfl, rfl⟩
    · rename_i text table htext
      split
      · exact Or.inl ⟨rfl, rfl, rfl⟩
      · rename_i decoded hretained
        exact Or.inr ⟨Bool.eq_false_iff.mpr hnew, by rw [htext]; nofun, hretained, rfl, rfl⟩

/-- What one candidate does to the frame: nothing but to the callsign table, or its message is
new, has a text, and is retained and counted as a result. -/
theorem decodeCandidate_cases (s : FrameState) (candidate : FrameCandidate) :
    ((decodeCandidate s candidate).decoded = s.decoded ∧
        (decodeCandidate s candidate).retained = s.retained ∧
        (decodeCandidate s candidate).count = s.count) ∨
      ∃ message, candidate.message = some message ∧
        alreadyDecoded s.decoded message = false ∧
        (ftxMessageDecode message s.table).1 ≠ none ∧
        retainMessage s.decoded message = some (decodeCandidate s candidate).decoded ∧
        (decodeCandidate s candidate).retained = s.retained ++ [message] ∧
        (decodeCandidate s candidate).count = s.count + 1 := by
  rw [decodeCandidate]
  dsimp only
  split
  · exact Or.inl ⟨rfl, rfl, rfl⟩
  · split
    · exact Or.inl ⟨rfl, rfl, rfl⟩
    · rename_i message hmessage
      exact (handleMessage_cases _ candidate message).imp_right fun hhandled =>
        ⟨message, hmessage, hhandled⟩

/-- The table holds the messages retained, and there is a result for each. -/
structure FrameInv (capacity : Nat) (s : FrameState) : Prop where
  holds : HoldsSet ft8MaxResults homeIndex s.decoded s.retained
  counted : s.count = s.retained.length

/-- A candidate keeps the invariant of the frame. A retained message goes to the slot that the
lookup found free, so the table stays a set of the messages reported. -/
theorem decodeCandidate_inv (hcapacity : capacity ≤ ft8MaxResults) (h : FrameInv capacity s)
    (hroom : s.count < capacity) (candidate : FrameCandidate) :
    FrameInv capacity (decodeCandidate s candidate) := by
  rcases decodeCandidate_cases s candidate with
    ⟨hdecoded, hretained, hcount⟩ | ⟨message, -, hnew, -, hretain, hretained, hcount⟩
  · exact ⟨by rw [hdecoded, hretained]; exact h.holds, by rw [hcount, hretained, h.counted]⟩
  · have hfree : s.retained.length < ft8MaxResults := by
      rw [← h.counted]
      omega
    have hmember : message ∉ s.retained := by
      rw [← alreadyDecoded_iff h.holds hfree, hnew]
      exact Bool.false_ne_true
    obtain ⟨index, hindex, hupdate⟩ := Option.map_eq_some_iff.mp hretain
    constructor
    · rw [hretained, ← hupdate]
      exact h.holds.insert (homeIndex_lt message) hmember hindex
    · rw [hcount, hretained, h.counted, List.length_append, List.length_singleton]

/-- Each step of the loops keeps the invariant, the passes over the candidates and their ends
alike. -/
theorem frameStep_inv (hcapacity : capacity ≤ ft8MaxResults) (h : FrameInv capacity s)
    {a : FrameAction} (hstep : frameStep capacity s a = some t) : FrameInv capacity t := by
  cases a with
  | pass =>
      rw [frameStep] at hstep
      split at hstep
      · exact Option.some.inj hstep ▸ ⟨h.holds, h.counted⟩
      · cases hstep
  | candidate candidate =>
      rw [frameStep] at hstep
      split at hstep
      · rename_i hroom
        exact Option.some.inj hstep ▸ decodeCandidate_inv hcapacity h hroom candidate
      · cases hstep

/-- From the invariant: while there is room the lookup knows exactly the messages that were
retained; these are different, and as many as the results. A message without a text changes
none of this. -/
theorem FrameInv.deduplicates (hcapacity : capacity ≤ ft8MaxResults) (h : FrameInv capacity s) :
    Deduplicates capacity s where
  known := by
    intro hroom
    have hfree : s.retained.length < ft8MaxResults := by
      rw [← h.counted]
      omega
    exact alreadyDecoded_iff h.holds hfree
  retains := by
    intro hfree message
    obtain ⟨slot, hslot⟩ := h.holds.free_exists (homeIndex_lt message) hfree
    exact Option.isSome_map.trans (Option.isSome_iff_exists.mpr ⟨slot, hslot⟩)
  distinct := h.holds.distinct
  counted := h.counted
  unreadable := by
    intro candidate message hmessage htext
    rcases decodeCandidate_cases s candidate with hsame | ⟨other, hother, -, hreadable, -⟩
    · exact hsame
    · rw [hmessage] at hother
      exact absurd (Option.some.inj hother ▸ htext) hreadable

/-- The loops of a frame are a run. -/
theorem candidateLoop_reachable {start : FrameState} (candidates : List FrameCandidate)
    (hs : Reachable (frameStep capacity) anyStep start s) :
    Reachable (frameStep capacity) anyStep start (candidateLoop capacity candidates s) := by
  induction candidates generalizing s with
  | nil => exact hs
  | cons candidate rest ih =>
      rw [candidateLoop]
      split
      · rename_i hroom
        exact ih (hs.next (a := .candidate candidate) trivial (if_pos hroom))
      · exact hs

theorem passLoop_reachable {start : FrameState} (passes : List (List FrameCandidate))
    (hs : Reachable (frameStep capacity) anyStep start s) :
    Reachable (frameStep capacity) anyStep start (passLoop capacity passes s) := by
  induction passes generalizing s with
  | nil => exact hs
  | cons candidates rest ih =>
      rw [passLoop]
      split
      · rename_i hroom
        exact ih (candidateLoop_reachable candidates
          (hs.next (a := .pass) trivial (if_pos hroom)))
      · exact hs

/-- At every turn of a frame's loops the table is the set of the messages retained so far, and
the frame ends with one result for each of them. The table has a slot for each result that
there may be. -/
theorem frame_deduplicates (hcapacity : capacity ≤ ft8MaxResults)
    (results : Nat → Ft8DecodeResult) (table : CallsignTable) :
    (∀ s, Reachable (frameStep capacity) anyStep (frameStart results table) s →
      Deduplicates capacity s) ∧
    ∀ first second third,
      Deduplicates capacity (framePasses capacity first second third results table) ∧
        (ft8DecodeFrame capacity first second third results table).resultCount =
          (framePasses capacity first second third results table).retained.length := by
  have hinv : ∀ s, Reachable (frameStep capacity) anyStep (frameStart results table) s →
      FrameInv capacity s :=
    Reachable.invariant ⟨holdsSet_empty _ _, rfl⟩
      fun s a t _ h _ hstep => frameStep_inv hcapacity h hstep
  refine ⟨fun s hs => (hinv s hs).deduplicates hcapacity, fun first second third => ?_⟩
  have hend := hinv _ (passLoop_reachable [first, second, third] .start)
  exact ⟨hend.deduplicates hcapacity, hend.counted⟩

/-- A result that has not been written. -/
def emptyResult : Ft8DecodeResult where
  snr := .nan false
  dt := .nan false
  audioFrequencyHz := .nan false
  transmitterCall := List.replicate 13 0
  transmitterGrid := List.replicate 7 0
  message := []

def exampleCandidate (bucket : Int) (message : FtxMessage) : FrameCandidate where
  frequencyBucket := bucket
  message := some message
  snr := .nan false
  timeSeconds := .nan false
  frequencyHz := .nan false

/-- `K1ABC W9XYZ FN42` -/
def exampleReply : FtxMessage where
  payload := [9, 189, 227, 80, 97, 73, 220, 10, 25, 136]
  hash := 7
  tenBytes := rfl

/-- `CQ W9XYZ FN42` with a hash for the same slot. -/
def exampleCq : FtxMessage where
  payload := [0, 0, 0, 32, 97, 73, 220, 10, 25, 136]
  hash := 57
  tenBytes := rfl

/-- Two messages for one slot, and the first of them once more. -/
theorem twoMessages_deduplicated :
    Deduplicates 50 (framePasses 50 [exampleCandidate 50 exampleReply,
      exampleCandidate 60 exampleCq, exampleCandidate 70 exampleReply] [] []
      (fun _ => emptyResult) callsignTableReset) ∧
    (ft8DecodeFrame 50 [exampleCandidate 50 exampleReply, exampleCandidate 60 exampleCq,
      exampleCandidate 70 exampleReply] [] [] (fun _ => emptyResult)
      callsignTableReset).resultCount = 2 := by
  obtain ⟨hset, -⟩ := (frame_deduplicates (by decide : 50 ≤ ft8MaxResults) (fun _ => emptyResult)
    callsignTableReset).2 [exampleCandidate 50 exampleReply, exampleCandidate 60 exampleCq,
      exampleCandidate 70 exampleReply] [] []
  exact ⟨hset, by decide +kernel⟩

end AirspyhfWsprd.Ft8
