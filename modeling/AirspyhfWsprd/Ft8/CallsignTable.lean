import Mathlib.Logic.Function.Basic
import AirspyhfWsprd.Library.CText
import AirspyhfWsprd.Library.Probing

/-!
The static callsign table of `ft8_decoder.c`: 256 slots, linear probing from a
home slot computed from the upper ten bits of the 22-bit hash. The top byte of
an entry's hash word is its age in frames. Only slots below the table size are
ever touched, so the table is a function from slot numbers to entries.
-/

namespace AirspyhfWsprd.Ft8

open Library

/-- `FT8_CALLSIGN_TABLE_SIZE` -/
def callsignTableSize : Nat := 256

/-- `struct callsign_entry`; an empty callsign marks a free slot. -/
structure CallsignEntry where
  callsign : CString
  hash : Nat
deriving DecidableEq

abbrev CallsignTable := Nat → CallsignEntry

/-- The entry `memset` leaves behind. -/
def CallsignEntry.zero : CallsignEntry := ⟨[], 0⟩

def CallsignEntry.occupied (entry : CallsignEntry) : Bool := entry.callsign != []

/-- The 22-bit hash stored in the entry's hash word. -/
def CallsignEntry.hash22 (entry : CallsignEntry) : Nat := entry.hash &&& 0x3fffff

/-- `(uint8_t)(hash >> 24)` -/
def CallsignEntry.age (entry : CallsignEntry) : Nat := (entry.hash >>> 24) % 256

def callsignTableReset : CallsignTable := fun _ => .zero

/-- The loop body of `callsign_table_age` for one entry. -/
def ageEntry (entry : CallsignEntry) : CallsignEntry :=
  if entry.callsign = [] then entry
  else if entry.age > 10 then .zero
  else {entry with hash := ((entry.age + 1) <<< 24) ||| (entry.hash &&& 0x3fffff)}

def callsignTableAge (table : CallsignTable) : CallsignTable :=
  fun index => ageEntry (table index)

/-- The slot a hash is probed from, given the hash's upper ten bits. -/
def homeSlot (upperBits : Nat) : Nat := (upperBits &&& 0x3ff) * 23 % callsignTableSize

/-- The entry already holds this callsign under this hash. -/
def holds (table : CallsignTable) (callsign : CString) (hash slot : Nat) : Bool :=
  (table slot).hash &&& 0x3fffff == hash &&& 0x3fffff &&
    (table slot).callsign == callsign

/-- `save_callsign`. The probe loop stops at a free slot, where it stores the
first eleven characters, or at the slot that already holds the pair, whose age
it clears. With neither in the table nothing is stored. -/
def saveCallsign (table : CallsignTable) (callsign : CString) (hash : Nat) :
    CallsignTable :=
  match scan (fun slot => !(table slot).occupied || holds table callsign hash slot)
      callsignTableSize (homeSlot (hash >>> 12)) callsignTableSize with
  | none => table
  | some slot =>
      if (table slot).callsign = [] then
        Function.update table slot ⟨callsign.take 11, hash &&& 0x3fffff⟩
      else
        Function.update table slot
          {table slot with hash := (table slot).hash &&& 0x3fffff}

/-- `ftx_callsign_hash_type_t` -/
inductive HashType where
  | bits22
  | bits12
  | bits10
deriving DecidableEq

/-- How many low bits of the 22-bit hash the hash type leaves out. -/
def HashType.shift : HashType → Nat
  | .bits10 => 12
  | .bits12 => 10
  | .bits22 => 0

/-- `lookup_callsign`: whether it found an entry, and the string it wrote. The
free-slot test comes first in the loop, so a free slot ends the search. -/
def lookupCallsign (table : CallsignTable) (hashType : HashType) (hash : Nat) :
    Bool × CString :=
  let found := scan
    (fun slot => !(table slot).occupied || (table slot).hash22 >>> hashType.shift == hash)
    callsignTableSize (homeSlot (hash >>> (12 - hashType.shift))) callsignTableSize
  match found with
  | none => (false, [])
  | some slot =>
      if (table slot).occupied then (true, (table slot).callsign.take 11) else (false, [])

theorem and_hash22 (x : Nat) : x &&& 0x3fffff = x % 2 ^ 22 :=
  Nat.and_two_pow_sub_one_eq_mod x 22

theorem and_ten_bits (x : Nat) : x &&& 0x3ff = x % 2 ^ 10 :=
  Nat.and_two_pow_sub_one_eq_mod x 10

theorem homeSlot_lt (upperBits : Nat) : homeSlot upperBits < callsignTableSize :=
  Nat.mod_lt _ (by decide)

theorem age_mk (callsign : CString) (hash : Nat) :
    CallsignEntry.age ⟨callsign, hash⟩ = hash / 2 ^ 24 % 256 := by
  rw [CallsignEntry.age, Nat.shiftRight_eq_div_pow]

/-- The hash word that ageing writes. -/
theorem aged_word (age x : Nat) :
    (age + 1) <<< 24 ||| x &&& 0x3fffff = (age + 1) * 2 ^ 24 + x % 2 ^ 22 := by
  have hlow : x % 2 ^ 22 < 2 ^ 24 :=
    (Nat.mod_lt _ (by decide)).trans (by decide)
  rw [and_hash22, ← Nat.shiftLeft_add_eq_or_of_lt hlow, Nat.shiftLeft_eq]

theorem aged_word_hash (age x : Nat) :
    ((age + 1) * 2 ^ 24 + x % 2 ^ 22) % 2 ^ 22 = x % 2 ^ 22 := by
  omega

theorem aged_word_age {age : Nat} (hage : age ≤ 10) (x : Nat) :
    ((age + 1) * 2 ^ 24 + x % 2 ^ 22) / 2 ^ 24 % 256 = age + 1 := by
  omega

/-- All three hash types probe from the home slot of the 22-bit hash. -/
theorem homeSlot_prefix (hashType : HashType) (hash : Nat) :
    homeSlot ((hash >>> hashType.shift) >>> (12 - hashType.shift)) =
      homeSlot (hash >>> 12) := by
  cases hashType <;> simp [HashType.shift, ← Nat.shiftRight_add]

/-- Only the low 22 bits of a hash decide its home slot. -/
theorem homeSlot_hash22 (hash : Nat) :
    homeSlot ((hash &&& 0x3fffff) >>> 12) = homeSlot (hash >>> 12) := by
  simp only [homeSlot, and_hash22, and_ten_bits, Nat.shiftRight_eq_div_pow]
  congr 2
  omega

/-- The entries that the next ageing clears. -/
def CallsignEntry.expires (entry : CallsignEntry) : Prop :=
  entry.occupied = true ∧ 10 < entry.age

instance (entry : CallsignEntry) : Decidable entry.expires :=
  inferInstanceAs (Decidable (_ ∧ _))

theorem ageEntry_free {entry : CallsignEntry} (hfree : entry.occupied = false) :
    ageEntry entry = entry := by
  simp only [CallsignEntry.occupied, bne_eq_false_iff_eq] at hfree
  simp [ageEntry, hfree]

theorem ageEntry_expires {entry : CallsignEntry} (hexpires : entry.expires) :
    ageEntry entry = .zero := by
  obtain ⟨hocc, hage⟩ := hexpires
  simp only [CallsignEntry.occupied, bne_iff_ne, ne_eq] at hocc
  simp [ageEntry, hocc, hage]

theorem ageEntry_survives {entry : CallsignEntry} (hocc : entry.occupied = true)
    (hsurvives : ¬ entry.expires) :
    ageEntry entry =
      ⟨entry.callsign, (entry.age + 1) * 2 ^ 24 + entry.hash % 2 ^ 22⟩ := by
  have hage : ¬ 10 < entry.age := fun h => hsurvives ⟨hocc, h⟩
  simp only [CallsignEntry.occupied, bne_iff_ne, ne_eq] at hocc
  simp [ageEntry, hocc, hage, aged_word]

/-- An entry is occupied after ageing exactly when it was and did not expire. -/
theorem ageEntry_occupied (entry : CallsignEntry) :
    (ageEntry entry).occupied = true ↔ entry.occupied = true ∧ ¬ entry.expires := by
  by_cases hocc : entry.occupied = true
  · by_cases hexpires : entry.expires
    · simp [ageEntry_expires hexpires, hexpires, CallsignEntry.zero,
        CallsignEntry.occupied]
    · rw [ageEntry_survives hocc hexpires]
      simp only [hocc, hexpires, not_false_iff, and_self, iff_true]
      exact hocc
  · rw [ageEntry_free (by simpa using hocc)]
    simp [hocc]

theorem aged_hash22 (callsign : CString) (age x : Nat) :
    CallsignEntry.hash22 ⟨callsign, (age + 1) * 2 ^ 24 + x % 2 ^ 22⟩ = x % 2 ^ 22 := by
  rw [CallsignEntry.hash22, and_hash22, aged_word_hash]

theorem aged_age (callsign : CString) {age : Nat} (hage : age ≤ 10) (x : Nat) :
    CallsignEntry.age ⟨callsign, (age + 1) * 2 ^ 24 + x % 2 ^ 22⟩ = age + 1 := by
  rw [age_mk]
  exact aged_word_age hage x

/-- A surviving entry keeps its callsign and hash and grows one frame older. -/
theorem ageEntry_fields {entry : CallsignEntry}
    (hocc : (ageEntry entry).occupied = true) :
    (ageEntry entry).callsign = entry.callsign ∧
      (ageEntry entry).hash22 = entry.hash22 ∧
      (ageEntry entry).age = entry.age + 1 := by
  obtain ⟨hold, hsurvives⟩ := (ageEntry_occupied entry).mp hocc
  have hage : entry.age ≤ 10 := Nat.le_of_not_lt fun h => hsurvives ⟨hold, h⟩
  have haged := ageEntry_survives hold hsurvives
  refine ⟨by rw [haged], ?_, ?_⟩
  · rw [haged, aged_hash22, CallsignEntry.hash22, and_hash22]
  · rw [haged]
    exact aged_age _ hage _

/-- A save into a table with a free slot writes the pair, with age zero, into
one slot whose chain has no free slot: a slot that already held the pair, or a
free one when no slot with an intact chain holds it. -/
theorem saveCallsign_cases (table : CallsignTable) {callsign : CString} (hash : Nat)
    (hlength : callsign.length ≤ 11)
    (hfree : ∃ i < callsignTableSize, (table i).occupied = false) :
    ∃ slot < callsignTableSize,
      ChainIntact (fun i => (table i).occupied) callsignTableSize
        (homeSlot (hash >>> 12)) slot ∧
      saveCallsign table callsign hash =
        Function.update table slot ⟨callsign, hash &&& 0x3fffff⟩ ∧
      ((table slot).occupied = true ∧ (table slot).callsign = callsign ∧
          (table slot).hash22 = hash &&& 0x3fffff ∨
        (table slot).occupied = false ∧
          ∀ j < callsignTableSize, (table j).occupied = true →
            ChainIntact (fun i => (table i).occupied) callsignTableSize
              (homeSlot (hash >>> 12)) j →
            holds table callsign hash j = false) := by
  obtain ⟨free, hlt, hfree⟩ := hfree
  have hhome := homeSlot_lt (hash >>> 12)
  obtain ⟨slot, hscan⟩ := scan_ends
    (fun i => (table i).occupied) (holds table callsign hash)
    hhome hlt hfree
  refine ⟨slot, scan_lt hhome hscan, chainIntact_of_scan hhome hscan, ?_⟩
  by_cases hocc : (table slot).occupied = true
  · have hstop := scan_stops hhome hscan
    simp only [hocc, Bool.not_true, Bool.false_or, holds, Bool.and_eq_true,
      beq_iff_eq] at hstop
    have hne : callsign ≠ [] := by
      simpa [CallsignEntry.occupied, hstop.2] using hocc
    refine ⟨?_, Or.inl ⟨hocc, hstop.2, hstop.1⟩⟩
    simp only [saveCallsign, hscan, hstop.1, hstop.2, hne, if_false]
  · have hnil : (table slot).callsign = [] := by
      simpa [CallsignEntry.occupied] using hocc
    refine ⟨?_, Or.inr ⟨by simpa using hocc, ?_⟩⟩
    · simp only [saveCallsign, hscan, hnil, if_true, List.take_of_length_le hlength]
    · intro j hj hoccj hchain
      by_contra hholds
      obtain ⟨hit, -, hfound, hhit, -⟩ := scan_finds_key
        (fun i => (table i).occupied) (holds table callsign hash)
        hhome hj hoccj (by simpa using hholds) hchain
      rw [hscan, Option.some.injEq] at hfound
      exact hocc (hfound ▸ hhit)

/-- With an intact chain before an entry, a lookup by any prefix of its hash
succeeds, and the callsign it returns is stored under that prefix. -/
theorem lookupCallsign_finds {table : CallsignTable} {slot : Nat}
    (hashType : HashType) (hslot : slot < callsignTableSize)
    (hocc : (table slot).occupied = true)
    (hchain : ChainIntact (fun i => (table i).occupied) callsignTableSize
      (homeSlot ((table slot).hash22 >>> 12)) slot) :
    ∃ hit < callsignTableSize, (table hit).occupied = true ∧
      (table hit).hash22 >>> hashType.shift =
        (table slot).hash22 >>> hashType.shift ∧
      lookupCallsign table hashType ((table slot).hash22 >>> hashType.shift) =
        (true, (table hit).callsign.take 11) := by
  obtain ⟨hit, hlt, hscan, hhit, hkey⟩ := scan_finds_key
    (fun i => (table i).occupied)
    (fun i => (table i).hash22 >>> hashType.shift ==
      (table slot).hash22 >>> hashType.shift)
    (homeSlot_lt _) hslot hocc (by simp) hchain
  refine ⟨hit, hlt, hhit, by simpa using hkey, ?_⟩
  simp only [lookupCallsign, homeSlot_prefix, hscan, hhit, if_true]

end AirspyhfWsprd.Ft8
