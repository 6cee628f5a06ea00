import AirspyhfWsprd.Ft8.CallsignLifetime

/-!
What the callsign table never does, also when it is full: it does not make up a callsign,
give one out under a hash it was not saved with, or keep one for more than eleven agings.
-/

namespace AirspyhfWsprd.Ft8

open Library

/-- Callsigns that fit an entry, under hashes of 22 bits. -/
def SavesFit (_ : TableRun) : TableOp → Prop
  | .save callsign hash => callsign.length ≤ 11 ∧ hash < 2 ^ 22
  | .lookup _ _ | .age => True

instance (s : TableRun) : (op : TableOp) → Decidable (SavesFit s op)
  | .save callsign hash => inferInstanceAs (Decidable (callsign.length ≤ 11 ∧ hash < 2 ^ 22))
  | .lookup _ _ | .age => isTrue trivial

/-- The number of agings among these operations. -/
def agings (ops : List TableOp) : Nat := ops.countP fun
  | .age => true
  | .save _ _ | .lookup _ _ => false

/-- The log, the latest operation first, has a save of the pair and since then this many
agings. -/
def SavedBefore (log : List TableOp) (callsign : CString) (hash age : Nat) : Prop :=
  ∃ newer older, log = newer ++ .save callsign hash :: older ∧ agings newer = age

/-- What a lookup may answer. -/
structure LookupSound (s : TableRun) : Prop where
  found : ∀ hashType hash callsign, lookupCallsign s.table hashType hash = (true, callsign) →
    ∃ saved age, SavedBefore s.log callsign saved age ∧ saved >>> hashType.shift = hash ∧
      age ≤ 11
  missed : ∀ hashType hash callsign, lookupCallsign s.table hashType hash = (false, callsign) →
    callsign = []
  ages : ∀ slot < callsignTableSize, (s.table slot).occupied = true → (s.table slot).age ≤ 11

/-- Every entry was saved as it stands, with its age as the agings since then. -/
structure SoundInv (s : TableRun) : Prop where
  fits : ∀ slot, (s.table slot).callsign.length ≤ 11
  saved : ∀ slot, (s.table slot).occupied = true →
    SavedBefore s.log (s.table slot).callsign (s.table slot).hash22 (s.table slot).age ∧
      (s.table slot).age ≤ 11

theorem tableStart_sound : SoundInv tableStart := by
  constructor
  · intro slot
    exact Nat.zero_le _
  · intro slot hocc
    cases hocc

theorem SavedBefore.cons {log : List TableOp} {callsign : CString} {hash age : Nat}
    (h : SavedBefore log callsign hash age) (op : TableOp) :
    SavedBefore (op :: log) callsign hash (age + agings [op]) := by
  obtain ⟨newer, older, rfl, rfl⟩ := h
  refine ⟨op :: newer, older, rfl, ?_⟩
  rw [agings, agings, agings, List.countP_cons, List.countP_singleton]

/-- A save leaves a slot as it is or puts the pair into it, also in a full table. -/
theorem saveCallsign_slot (table : CallsignTable) {callsign : CString} (hash slot : Nat)
    (hlength : callsign.length ≤ 11) :
    saveCallsign table callsign hash slot = table slot ∨
      saveCallsign table callsign hash slot = ⟨callsign, hash &&& 0x3fffff⟩ := by
  unfold saveCallsign
  cases hscan : scan (fun slot => !(table slot).occupied || holds table callsign hash slot)
      callsignTableSize (homeSlot (hash >>> 12)) callsignTableSize with
  | none => exact Or.inl rfl
  | some written =>
      dsimp only
      have hstop := scan_stops (homeSlot_lt _) hscan
      by_cases hslot : slot = written
      · subst hslot
        right
        split
        · rw [Function.update_self, List.take_of_length_le hlength]
        · rename_i hocc
          have hholds : holds table callsign hash slot = true := by
            simpa [CallsignEntry.occupied, hocc] using hstop
          simp only [holds, Bool.and_eq_true, beq_iff_eq] at hholds
          rw [Function.update_self, hholds.1, ← hholds.2]
      · left
        split
        · exact Function.update_of_ne hslot _ _
        · exact Function.update_of_ne hslot _ _

/-- A save keeps the table sound, also when it is full and the save is lost: every entry is one
that was saved under its hash, with the age that the log gives it. -/
theorem save_sound {s : TableRun} (hinv : SoundInv s) {callsign : CString} {hash : Nat}
    (hlength : callsign.length ≤ 11) (hhash : hash < 2 ^ 22) :
    SoundInv ⟨saveCallsign s.table callsign hash, .save callsign hash :: s.log⟩ := by
  constructor
  · intro slot
    rcases saveCallsign_slot s.table hash slot hlength with hsame | hwritten
    · dsimp only
      rw [hsame]
      exact hinv.fits slot
    · dsimp only
      rw [hwritten]
      exact hlength
  · intro slot hocc
    rcases saveCallsign_slot s.table hash slot hlength with hsame | hwritten
    · dsimp only at hocc ⊢
      rw [hsame] at hocc ⊢
      exact ⟨(hinv.saved slot hocc).1.cons _, (hinv.saved slot hocc).2⟩
    · dsimp only
      rw [hwritten, saved_hash22, saved_age, and_hash22, Nat.mod_eq_of_lt hhash]
      exact ⟨⟨[], s.log, rfl, rfl⟩, Nat.zero_le _⟩

/-- An ageing adds one to the age of every entry, as the log does, and clears those that have
grown too old. -/
theorem age_sound {s : TableRun} (hinv : SoundInv s) :
    SoundInv ⟨callsignTableAge s.table, .age :: s.log⟩ := by
  constructor
  · intro slot
    by_cases hocc : (ageEntry (s.table slot)).occupied = true
    · simpa only [callsignTableAge, (ageEntry_fields hocc).1] using hinv.fits slot
    · rw [occupied_iff, not_not] at hocc
      simp [callsignTableAge, hocc]
  · intro slot hocc
    obtain ⟨hold, hsurvives⟩ := (ageEntry_occupied _).mp hocc
    obtain ⟨hcallsign, hhash, hage⟩ := ageEntry_fields hocc
    have hyoung : (s.table slot).age ≤ 10 :=
      Nat.le_of_not_lt fun hexpired => hsurvives ⟨hold, hexpired⟩
    dsimp only [callsignTableAge]
    rw [hcallsign, hhash, hage]
    exact ⟨(hinv.saved slot hold).1.cons .age, Nat.succ_le_succ hyoung⟩

theorem tableStep_sound {s t : TableRun} {op : TableOp} (hinv : SoundInv s)
    (hfit : SavesFit s op) (hstep : tableStep s op = some t) : SoundInv t := by
  cases hstep
  cases op with
  | save callsign hash => exact save_sound hinv hfit.1 hfit.2
  | age => exact age_sound hinv
  | lookup hashType hash =>
      exact ⟨hinv.fits, fun slot hocc =>
        ⟨(hinv.saved slot hocc).1.cons _, (hinv.saved slot hocc).2⟩⟩

/-- A lookup that succeeds gives the callsign of an entry with these bits. -/
theorem lookupCallsign_true {table : CallsignTable} {hashType : HashType} {hash : Nat}
    {callsign : CString} (h : lookupCallsign table hashType hash = (true, callsign)) :
    ∃ slot, (table slot).occupied = true ∧ (table slot).hash22 >>> hashType.shift = hash ∧
      callsign = (table slot).callsign.take 11 := by
  rw [lookupCallsign] at h
  split at h
  · cases h
  rename_i slot hscan
  split at h
  · rename_i hocc
    have hstop := scan_stops (homeSlot_lt _) hscan
    cases h
    exact ⟨slot, hocc, by simpa [hocc] using hstop, rfl⟩
  · cases h

theorem lookupCallsign_false {table : CallsignTable} {hashType : HashType} {hash : Nat}
    {callsign : CString} (h : lookupCallsign table hashType hash = (false, callsign)) :
    callsign = [] := by
  rw [lookupCallsign] at h
  split at h
  · cases h
    rfl
  split at h
  · cases h
  · cases h
    rfl

/-- In every history of saves that fit, lookups and agings, a callsign that a lookup gives was
saved under a hash with these bits at most eleven agings ago. A full table is no exception: the
probes go round it once and end. -/
theorem lookups_sound (s : TableRun) (hs : Reachable tableStep SavesFit tableStart s) :
    LookupSound s := by
  have hinv : SoundInv s := Reachable.invariant tableStart_sound
    (fun _ _ _ _ hinv hfit hstep => tableStep_sound hinv hfit hstep) s hs
  refine ⟨?_, fun _ _ _ hmissed => lookupCallsign_false hmissed, ?_⟩
  · intro hashType hash callsign hfound
    obtain ⟨slot, hocc, hbits, rfl⟩ := lookupCallsign_true hfound
    obtain ⟨hsaved, hage⟩ := hinv.saved slot hocc
    rw [List.take_of_length_le (hinv.fits slot)]
    exact ⟨_, _, hsaved, hbits, hage⟩
  · intro slot _ hocc
    exact (hinv.saved slot hocc).2

/-- The history in which a lookup misses a saved callsign; what the lookups do find is right
all the same. -/
theorem brokenChainOps_sound : LookupSound (tableAfter brokenChainOps) :=
  lookups_sound _ (Reachable.of_execute brokenChainOps .start (by decide +kernel)
    (execute_tableStep _ _))

end AirspyhfWsprd.Ft8
