import AirspyhfWsprd.Library.Transition
import AirspyhfWsprd.Ft8.CallsignTable

/-!
Histories of the callsign table: any sequence of saves, lookups and agings
from an empty table. An entry is meant to stay findable by its 22-, 12- and
10-bit hashes for eleven agings after its last save. Ageing clears slots in
the middle of probe chains, and both probe loops stop at a free slot, so this
holds as long as no ageing clears a slot that a surviving entry was probed
past.
-/

namespace AirspyhfWsprd.Ft8

open Library

inductive TableOp where
  | save (callsign : CString) (hash : Nat)
  | lookup (hashType : HashType) (hash : Nat)
  | age

/-- The table after one operation; a lookup only reads it. -/
def TableOp.apply (table : CallsignTable) : TableOp → CallsignTable
  | .save callsign hash => saveCallsign table callsign hash
  | .lookup _ _ => table
  | .age => callsignTableAge table

/-- The table and the operations so far, the latest first. -/
structure TableRun where
  table : CallsignTable
  log : List TableOp

def tableStart : TableRun := ⟨callsignTableReset, []⟩

def tableStep (s : TableRun) (op : TableOp) : Option TableRun :=
  some ⟨op.apply s.table, op :: s.log⟩

/-- How many agings followed the last save of the pair, if it was saved. -/
def agingsSinceSave (callsign : CString) (hash : Nat) : List TableOp → Option Nat
  | [] => none
  | .save saved savedHash :: older =>
      if saved = callsign ∧ savedHash &&& 0x3fffff = hash then some 0
      else agingsSinceSave callsign hash older
  | .lookup _ _ :: older => agingsSinceSave callsign hash older
  | .age :: older => (agingsSinceSave callsign hash older).map (· + 1)

/-- A lookup succeeds with a callsign that is stored under the given bits. -/
def LookupSucceeds (table : CallsignTable) (hashType : HashType) (hash : Nat) : Prop :=
  ∃ slot < callsignTableSize, (table slot).occupied = true ∧
    (table slot).hash22 >>> hashType.shift = hash ∧
    lookupCallsign table hashType hash = (true, (table slot).callsign)

def PairsDistinct (table : CallsignTable) : Prop :=
  ∀ i < callsignTableSize, ∀ j < callsignTableSize,
    (table i).occupied = true → (table j).occupied = true →
    (table i).callsign = (table j).callsign →
    (table i).hash22 = (table j).hash22 → i = j

/-- What the table is for: a pair saved at most eleven agings ago is found by
its hash and both of its prefixes, and no pair occupies two slots. -/
def RemembersCallsigns (s : TableRun) : Prop :=
  (∀ callsign hash k, callsign ≠ [] → callsign.length ≤ 11 → hash < 2 ^ 22 →
    agingsSinceSave callsign hash s.log = some k → k ≤ 11 →
    LookupSucceeds s.table .bits22 hash ∧
    LookupSucceeds s.table .bits12 (hash >>> 10) ∧
    LookupSucceeds s.table .bits10 (hash >>> 12)) ∧
  PairsDistinct s.table

/-- The operation leaves a free slot. -/
def LeavesFreeSlot (s : TableRun) (op : TableOp) : Prop :=
  ∃ i < callsignTableSize, (op.apply s.table i).occupied = false

instance (s : TableRun) (op : TableOp) : Decidable (LeavesFreeSlot s op) :=
  inferInstanceAs (Decidable (∃ i, i < callsignTableSize ∧ _))

/-- No slot on the probe path of a surviving entry expires. -/
def ExpiryKeepsChains (table : CallsignTable) : Prop :=
  ∀ slot < callsignTableSize, (table slot).occupied = true →
    ¬ (table slot).expires →
    ∀ k < probeDistance callsignTableSize (homeSlot ((table slot).hash22 >>> 12)) slot,
      ¬ (table (probeAt callsignTableSize
        (homeSlot ((table slot).hash22 >>> 12)) k)).expires

instance (table : CallsignTable) : Decidable (ExpiryKeepsChains table) :=
  inferInstanceAs (Decidable (∀ slot, slot < callsignTableSize → _))

/-- The steps under which the table does its job: ageing breaks no probe chain
and a saved callsign fits an entry. -/
def KeepsChains (s : TableRun) : TableOp → Prop
  | .save callsign _ => callsign.length ≤ 11
  | .lookup _ _ => True
  | .age => ExpiryKeepsChains s.table

instance (s : TableRun) : (op : TableOp) → Decidable (KeepsChains s op)
  | .save callsign _ => inferInstanceAs (Decidable (callsign.length ≤ 11))
  | .lookup _ _ => isTrue trivial
  | .age => inferInstanceAs (Decidable (ExpiryKeepsChains s.table))

/-- The invariant of the table under such steps: no probe path to an entry is interrupted, and
a callsign saved at most eleven agings ago has an entry of this age. -/
structure TableInv (s : TableRun) : Prop where
  free : ∃ i < callsignTableSize, (s.table i).occupied = false
  fits : ∀ slot, (s.table slot).callsign.length ≤ 11
  chains : ∀ slot < callsignTableSize, (s.table slot).occupied = true →
    ChainIntact (fun i => (s.table i).occupied) callsignTableSize
      (homeSlot ((s.table slot).hash22 >>> 12)) slot
  distinct : PairsDistinct s.table
  stored : ∀ callsign hash k, callsign ≠ [] → callsign.length ≤ 11 →
    agingsSinceSave callsign hash s.log = some k → k ≤ 11 →
    ∃ slot < callsignTableSize, (s.table slot).callsign = callsign ∧
      (s.table slot).hash22 = hash ∧ (s.table slot).age = k

/-- The empty table satisfies the invariant: every slot is free, so no pair occurs twice and no
chain is broken. -/
theorem tableStart_inv : TableInv tableStart where
  free := ⟨0, by decide, rfl⟩
  fits := by simp [tableStart, callsignTableReset, CallsignEntry.zero]
  chains := by
    intro slot _ hocc
    simp [tableStart, callsignTableReset, CallsignEntry.zero,
      CallsignEntry.occupied] at hocc
  distinct := by
    intro i _ j _ hocc
    simp [tableStart, callsignTableReset, CallsignEntry.zero,
      CallsignEntry.occupied] at hocc
  stored := by
    intro callsign hash k _ _ hlog
    cases hlog

theorem occupied_iff (entry : CallsignEntry) :
    entry.occupied = true ↔ entry.callsign ≠ [] := by
  simp [CallsignEntry.occupied]

theorem saved_hash22 (callsign : CString) (hash : Nat) :
    CallsignEntry.hash22 ⟨callsign, hash &&& 0x3fffff⟩ = hash &&& 0x3fffff := by
  simp only [CallsignEntry.hash22, and_hash22, Nat.mod_mod]

theorem saved_age (callsign : CString) (hash : Nat) :
    CallsignEntry.age ⟨callsign, hash &&& 0x3fffff⟩ = 0 := by
  have hlow : hash % 2 ^ 22 < 2 ^ 24 :=
    (Nat.mod_lt _ (by decide)).trans (by decide)
  rw [age_mk, and_hash22, Nat.div_eq_of_lt hlow, Nat.zero_mod]

/-- What a save does to a table that meets the invariant: one slot is written,
which was free or holds the same pair, and no other slot holds that pair. -/
structure SaveEffect (s : TableRun) (callsign : CString) (hash : Nat)
    (after : CallsignTable) (slot : Nat) : Prop where
  below : slot < callsignTableSize
  chain : ChainIntact (fun i => (s.table i).occupied) callsignTableSize
    (homeSlot (hash >>> 12)) slot
  written : after slot = ⟨callsign, hash &&& 0x3fffff⟩
  same : ∀ i, i ≠ slot → after i = s.table i
  before : (s.table slot).occupied = true →
    (s.table slot).callsign = callsign ∧ (s.table slot).hash22 = hash &&& 0x3fffff
  alone : ∀ j < callsignTableSize, j ≠ slot → (s.table j).occupied = true →
    ¬ ((s.table j).callsign = callsign ∧ (s.table j).hash22 = hash &&& 0x3fffff)

/-- A save fills one slot and leaves all others as they are: the slot that holds the callsign
and its hash already, or the free slot at which the probing ends. The table has such a slot as
long as it is not full of other entries. -/
theorem save_effect {s : TableRun} {callsign : CString} (hash : Nat)
    (hinv : TableInv s) (hlength : callsign.length ≤ 11) :
    ∃ slot, SaveEffect s callsign hash (saveCallsign s.table callsign hash) slot := by
  obtain ⟨slot, hslot, hchain, hsave, hcase⟩ :=
    saveCallsign_cases s.table hash hlength hinv.free
  refine ⟨slot, hslot, hchain, ?_, ?_, ?_, ?_⟩
  · rw [hsave, Function.update_self]
  · intro i hi
    rw [hsave, Function.update_of_ne hi]
  · intro hocc
    rcases hcase with ⟨_, hcall, hhash⟩ | ⟨hfree, _⟩
    · exact ⟨hcall, hhash⟩
    · rw [hfree] at hocc
      cases hocc
  · rintro j hj hne hocc ⟨hcall, hhash⟩
    rcases hcase with ⟨hslotocc, hslotcall, hslothash⟩ | ⟨_, hnone⟩
    · exact hne (hinv.distinct j hj slot hslot hocc hslotocc
        (hcall.trans hslotcall.symm) (hhash.trans hslothash.symm))
    · have hjchain := hinv.chains j hj hocc
      rw [hhash, homeSlot_hash22] at hjchain
      have hholds := hnone j hj hocc hjchain
      simp only [CallsignEntry.hash22] at hhash
      simp [holds, hcall, hhash] at hholds

section Save

variable {s : TableRun} {callsign : CString} {hash slot : Nat}
  {after : CallsignTable}

/-- A save loses no slot. -/
theorem SaveEffect.occupied (heffect : SaveEffect s callsign hash after slot)
    (i : Nat) (hocc : (s.table i).occupied = true) :
    (after i).occupied = true := by
  by_cases hi : i = slot
  · subst hi
    rw [heffect.written, occupied_iff, ← (heffect.before hocc).1, ← occupied_iff]
    exact hocc
  · rwa [heffect.same i hi]

theorem SaveEffect.fits (heffect : SaveEffect s callsign hash after slot)
    (hinv : TableInv s) (hlength : callsign.length ≤ 11) (i : Nat) :
    (after i).callsign.length ≤ 11 := by
  by_cases hi : i = slot
  · simpa only [hi, heffect.written] using hlength
  · simpa only [heffect.same i hi] using hinv.fits i

theorem SaveEffect.chains (heffect : SaveEffect s callsign hash after slot)
    (hinv : TableInv s) (i : Nat) (hi : i < callsignTableSize)
    (hocc : (after i).occupied = true) :
    ChainIntact (fun j => (after j).occupied) callsignTableSize
      (homeSlot ((after i).hash22 >>> 12)) i := by
  by_cases heq : i = slot
  · subst heq
    simp only [heffect.written, saved_hash22, homeSlot_hash22]
    exact heffect.chain.mono heffect.occupied
  · simp only [heffect.same i heq] at hocc ⊢
    exact (hinv.chains i hi hocc).mono heffect.occupied

/-- A save makes no pair of callsign and hash occur in a second slot, since it goes to the slot
that has the pair when there is one. -/
theorem SaveEffect.distinct (heffect : SaveEffect s callsign hash after slot)
    (hinv : TableInv s) : PairsDistinct after := by
  intro i hi j hj hocci hoccj hcall hhash
  by_cases heqi : i = slot <;> by_cases heqj : j = slot
  · rw [heqi, heqj]
  · subst heqi
    simp only [heffect.written, saved_hash22, heffect.same j heqj]
      at hcall hhash hoccj
    exact (heffect.alone j hj heqj hoccj ⟨hcall.symm, hhash.symm⟩).elim
  · subst heqj
    simp only [heffect.written, saved_hash22, heffect.same i heqi]
      at hcall hhash hocci
    exact (heffect.alone i hi heqi hocci ⟨hcall, hhash⟩).elim
  · simp only [heffect.same i heqi, heffect.same j heqj]
      at hocci hoccj hcall hhash
    exact hinv.distinct i hi j hj hocci hoccj hcall hhash

/-- A pair other than the saved one is not in the slot the save wrote. -/
theorem SaveEffect.elsewhere (heffect : SaveEffect s callsign hash after slot)
    {i : Nat} {c : CString} {h : Nat} (hne : c ≠ [])
    (hpair : ¬ (callsign = c ∧ hash &&& 0x3fffff = h))
    (hcall : (s.table i).callsign = c) (hhash : (s.table i).hash22 = h) :
    i ≠ slot := by
  rintro rfl
  have hocc : (s.table i).occupied = true := by
    rw [occupied_iff, hcall]
    exact hne
  obtain ⟨hslotcall, hslothash⟩ := heffect.before hocc
  exact hpair ⟨hslotcall.symm.trans hcall, hslothash.symm.trans hhash⟩

/-- After a save every pair that was saved at most eleven agings ago is in the table with its
age: the pair saved now with age zero, all others in the slots they had. -/
theorem SaveEffect.stored (heffect : SaveEffect s callsign hash after slot)
    (hinv : TableInv s) (c : CString) (h k : Nat) (hne : c ≠ [])
    (hlen : c.length ≤ 11)
    (hlog : agingsSinceSave c h (.save callsign hash :: s.log) = some k)
    (hk : k ≤ 11) :
    ∃ i < callsignTableSize, (after i).callsign = c ∧ (after i).hash22 = h ∧
      (after i).age = k := by
  by_cases hpair : callsign = c ∧ hash &&& 0x3fffff = h
  · simp only [agingsSinceSave, hpair, and_self, if_true, Option.some.injEq] at hlog
    refine ⟨slot, heffect.below, ?_⟩
    simp only [heffect.written, saved_hash22, saved_age]
    exact ⟨hpair.1, hpair.2, hlog⟩
  · simp only [agingsSinceSave, hpair, if_false] at hlog
    obtain ⟨i, hi, hcall, hhash, hage⟩ := hinv.stored c h k hne hlen hlog hk
    have heq : i ≠ slot := heffect.elsewhere hne hpair hcall hhash
    refine ⟨i, hi, ?_⟩
    simp only [heffect.same i heq]
    exact ⟨hcall, hhash, hage⟩

end Save

theorem save_inv {s : TableRun} {callsign : CString} {hash : Nat}
    (hinv : TableInv s) (hlength : callsign.length ≤ 11)
    (hleaves : LeavesFreeSlot s (.save callsign hash)) :
    TableInv ⟨saveCallsign s.table callsign hash, .save callsign hash :: s.log⟩ := by
  obtain ⟨slot, heffect⟩ := save_effect hash hinv hlength
  exact ⟨hleaves, heffect.fits hinv hlength, heffect.chains hinv,
    heffect.distinct hinv, heffect.stored hinv⟩

/-- An ageing keeps the invariant when the slots it clears lie on no chain of an entry that
stays. Without that an entry behind a cleared slot is in the table but cannot be found any
more. -/
theorem age_inv {s : TableRun} (hinv : TableInv s)
    (hkeeps : ExpiryKeepsChains s.table) (hleaves : LeavesFreeSlot s .age) :
    TableInv ⟨callsignTableAge s.table, .age :: s.log⟩ := by
  refine ⟨hleaves, ?_, ?_, ?_, ?_⟩
  · intro i
    by_cases hocc : (ageEntry (s.table i)).occupied = true
    · simpa only [callsignTableAge, (ageEntry_fields hocc).1] using hinv.fits i
    · rw [occupied_iff, not_not] at hocc
      simp [callsignTableAge, hocc]
  · intro i hi hocc
    obtain ⟨hold, hsurvives⟩ := (ageEntry_occupied _).mp hocc
    intro k hk
    simp only [callsignTableAge, (ageEntry_fields hocc).2.1] at hk ⊢
    exact (ageEntry_occupied _).mpr
      ⟨hinv.chains i hi hold k hk, hkeeps i hi hold hsurvives k hk⟩
  · intro i hi j hj hocci hoccj hcall hhash
    simp only [callsignTableAge, (ageEntry_fields hocci).1,
      (ageEntry_fields hoccj).1] at hcall
    simp only [callsignTableAge, (ageEntry_fields hocci).2.1,
      (ageEntry_fields hoccj).2.1] at hhash
    exact hinv.distinct i hi j hj ((ageEntry_occupied _).mp hocci).1
      ((ageEntry_occupied _).mp hoccj).1 hcall hhash
  · intro c h k hne hlen hlog hk
    obtain ⟨older, holder, rfl⟩ := Option.map_eq_some_iff.mp hlog
    obtain ⟨i, hi, hcall, hhash, hage⟩ :=
      hinv.stored c h older hne hlen holder (by omega)
    have hocc : (ageEntry (s.table i)).occupied = true := by
      rw [ageEntry_occupied, occupied_iff, hcall]
      exact ⟨hne, fun hexpires => absurd hexpires.2 (by omega)⟩
    obtain ⟨hcall', hhash', hage'⟩ := ageEntry_fields hocc
    exact ⟨i, hi, hcall'.trans hcall, hhash'.trans hhash,
      hage'.trans (congrArg (· + 1) hage)⟩

theorem tableStep_inv {s t : TableRun} {op : TableOp} (hinv : TableInv s)
    (hallowed : LeavesFreeSlot s op ∧ KeepsChains s op)
    (hstep : tableStep s op = some t) : TableInv t := by
  cases hstep
  obtain ⟨hleaves, hkeeps⟩ := hallowed
  cases op with
  | save callsign hash => exact save_inv hinv hkeeps hleaves
  | age => exact age_inv hinv hkeeps hleaves
  | lookup hashType hash =>
      exact ⟨hinv.free, hinv.fits, hinv.chains, hinv.distinct, hinv.stored⟩

/-- An entry is found by every prefix of its hash. -/
theorem lookupSucceeds_of_stored {s : TableRun} (hinv : TableInv s)
    (hashType : HashType) {slot : Nat} (hslot : slot < callsignTableSize)
    (hocc : (s.table slot).occupied = true) :
    LookupSucceeds s.table hashType ((s.table slot).hash22 >>> hashType.shift) := by
  obtain ⟨hit, hlt, hhit, hprefix, hlookup⟩ :=
    lookupCallsign_finds hashType hslot hocc (hinv.chains slot hslot hocc)
  refine ⟨hit, hlt, hhit, hprefix, ?_⟩
  rw [hlookup, List.take_of_length_le (hinv.fits hit)]

/-- In every history whose agings break no probe chain, the table remembers what was saved: no
slot between the home of an entry and the entry itself is free, so that the lookups by all
three lengths of the hash get as far as the entry. -/
theorem remembers_when_chains_kept (s : TableRun)
    (hs : Reachable tableStep (fun s op => LeavesFreeSlot s op ∧ KeepsChains s op)
      tableStart s) :
    RemembersCallsigns s := by
  have hinv : TableInv s := Reachable.invariant tableStart_inv
    (fun _ _ _ _ hinv hallowed hstep => tableStep_inv hinv hallowed hstep) s hs
  refine ⟨?_, hinv.distinct⟩
  intro callsign hash k hne hlen _ hlog hk
  obtain ⟨slot, hslot, hcall, rfl, -⟩ := hinv.stored callsign hash k hne hlen hlog hk
  have hocc : (s.table slot).occupied = true := by
    rw [occupied_iff, hcall]
    exact hne
  exact ⟨lookupSucceeds_of_stored hinv .bits22 hslot hocc,
    lookupSucceeds_of_stored hinv .bits12 hslot hocc,
    lookupSucceeds_of_stored hinv .bits10 hslot hocc⟩

/-- The table after a list of operations. -/
def tableAfter (ops : List TableOp) : TableRun :=
  ops.foldl (fun s op => ⟨op.apply s.table, op :: s.log⟩) tableStart

theorem execute_tableStep (s : TableRun) (ops : List TableOp) :
    execute tableStep s ops =
      some (ops.foldl (fun s op => ⟨op.apply s.table, op :: s.log⟩) s) := by
  induction ops generalizing s with
  | nil => rfl
  | cons op rest ih => exact ih _

/-- Two callsigns with one home slot, of which the first is kept fresh. -/
def keptChainOps : List TableOp :=
  [.save [75, 49] 5, .save [75, 50] 6, .age, .save [75, 49] 5] ++
    List.replicate 10 .age

/-- Two callsigns with one home slot and eleven agings, after the first of which the first
callsign is saved again. -/
theorem keptChainOps_remembers : RemembersCallsigns (tableAfter keptChainOps) :=
  remembers_when_chains_kept _
    (Reachable.of_execute keptChainOps .start (by decide +kernel)
      (execute_tableStep _ _))

/-- Two callsigns with one home slot. The first expires while the second, saved
again one frame earlier, is still young. -/
def brokenChainOps : List TableOp :=
  [.save [75, 49] 5, .save [75, 50] 6] ++ List.replicate 11 .age ++
    [.save [75, 50] 6, .age]

/-- Ageing empties the home slot of a callsign saved one frame ago, and the
lookup of its hash stops there. -/
theorem expired_slot_hides_callsign :
    ¬ ∀ s, Reachable tableStep LeavesFreeSlot tableStart s → RemembersCallsigns s := by
  intro hremembers
  have hrun : Reachable tableStep LeavesFreeSlot tableStart (tableAfter brokenChainOps) :=
    Reachable.of_execute brokenChainOps .start (by decide +kernel)
      (execute_tableStep _ _)
  have hsaved : agingsSinceSave [75, 50] 6 (tableAfter brokenChainOps).log = some 1 := by
    decide +kernel
  have hmissed :
      lookupCallsign (tableAfter brokenChainOps).table .bits22 6 = (false, []) := by
    decide +kernel
  obtain ⟨⟨slot, -, -, -, hfound⟩, -⟩ :=
    (hremembers _ hrun).1 [75, 50] 6 1 (by decide) (by decide) (by decide) hsaved
      (by decide)
  rw [hmissed] at hfound
  cases hfound

end AirspyhfWsprd.Ft8
