import Mathlib.Data.Nat.Find
import Mathlib.Data.Nat.ModEq
import Mathlib.Tactic.Common

/-!
Linear probing in a table of `size` slots, indexed by natural numbers below
`size`. A scan walks the probe sequence of a home slot and stops at the first
slot that satisfies a test, after at most a given number of probes. The chain
of a slot is the part of the probe sequence before it: open addressing finds a
key exactly as long as the chain of its slot has no free slot in it.
-/

namespace AirspyhfWsprd.Library

/-- The slot that probe number `k` from `home` looks at. -/
def probeAt (size home k : Nat) : Nat := (home + k) % size

/-- How many probes from `home` come before `slot`. -/
def probeDistance (size home slot : Nat) : Nat := (slot + size - home) % size

/-- The first slot on the probe sequence from `index` that satisfies `stop`,
within the given number of probes. -/
def scan (stop : Nat → Bool) (size : Nat) : Nat → Nat → Option Nat
  | _, 0 => none
  | index, probes + 1 =>
      if stop index then some index
      else scan stop size ((index + 1) % size) probes

/-- No slot on the way from `home` to `slot` is free. -/
def ChainIntact (occupied : Nat → Bool) (size home slot : Nat) : Prop :=
  ∀ k < probeDistance size home slot, occupied (probeAt size home k) = true

section ProbeSequence

variable {size home slot k : Nat}

theorem probeAt_lt (hsize : 0 < size) : probeAt size home k < size :=
  Nat.mod_lt _ hsize

theorem probeAt_zero (hhome : home < size) : probeAt size home 0 = home := by
  simp [probeAt, Nat.mod_eq_of_lt hhome]

theorem probeAt_succ :
    probeAt size ((home + 1) % size) k = probeAt size home (k + 1) := by
  simp only [probeAt, Nat.mod_add_mod]
  congr 1
  omega

theorem probeDistance_lt (hsize : 0 < size) :
    probeDistance size home slot < size :=
  Nat.mod_lt _ hsize

/-- The probe sequence reaches every slot. -/
theorem probeAt_probeDistance (hhome : home < size) (hslot : slot < size) :
    probeAt size home (probeDistance size home slot) = slot := by
  unfold probeAt probeDistance
  rw [Nat.add_mod_mod, show home + (slot + size - home) = slot + size by omega,
    Nat.add_mod_right, Nat.mod_eq_of_lt hslot]

/-- Within one turn the probe sequence reaches every slot only once. -/
theorem probeDistance_probeAt (hhome : home < size) (hk : k < size) :
    probeDistance size home (probeAt size home k) = k := by
  unfold probeAt probeDistance
  rcases Nat.lt_or_ge (home + k) size with hlt | hge
  · rw [Nat.mod_eq_of_lt hlt, show home + k + size - home = k + size by omega,
      Nat.add_mod_right, Nat.mod_eq_of_lt hk]
  · have hwrap : (home + k) % size = home + k - size := by
      rw [Nat.mod_eq_sub_mod hge, Nat.mod_eq_of_lt (by omega)]
    rw [hwrap, show home + k - size + size - home = k by omega,
      Nat.mod_eq_of_lt hk]

end ProbeSequence

section Scan

variable {stop : Nat → Bool} {size home slot probes : Nat}

/-- A scan returns the slot of the first probe that satisfies the test. -/
theorem scan_eq_some_iff (hhome : home < size) :
    scan stop size home probes = some slot ↔
      ∃ k < probes, probeAt size home k = slot ∧ stop slot = true ∧
        ∀ j < k, stop (probeAt size home j) = false := by
  induction probes generalizing home with
  | zero => simp [scan]
  | succ probes ih =>
      have hnext : (home + 1) % size < size := Nat.mod_lt _ (by omega)
      by_cases hstop : stop home = true
      · simp only [scan, hstop, if_true, Option.some.injEq]
        constructor
        · rintro rfl
          exact ⟨0, by omega, probeAt_zero hhome, hstop, by omega⟩
        · rintro ⟨k, -, hk, -, hbefore⟩
          rcases Nat.eq_zero_or_pos k with rfl | hpos
          · rw [← hk, probeAt_zero hhome]
          · have hzero := hbefore 0 hpos
            rw [probeAt_zero hhome, hstop] at hzero
            cases hzero
      · simp only [scan, hstop, Bool.false_eq_true, if_false, ih hnext]
        constructor
        · rintro ⟨k, hk, hslot, hs, hbefore⟩
          refine ⟨k + 1, by omega, probeAt_succ.symm.trans hslot, hs, ?_⟩
          intro j hj
          cases j with
          | zero => simpa [probeAt_zero hhome] using hstop
          | succ j =>
              rw [← probeAt_succ]
              exact hbefore j (by omega)
        · rintro ⟨k, hk, hslot, hs, hbefore⟩
          cases k with
          | zero =>
              rw [probeAt_zero hhome] at hslot
              exact absurd (hslot ▸ hs) hstop
          | succ k =>
              refine ⟨k, by omega, probeAt_succ.trans hslot, hs, ?_⟩
              intro j hj
              rw [probeAt_succ]
              exact hbefore (j + 1) (by omega)

theorem scan_lt (hhome : home < size)
    (hscan : scan stop size home probes = some slot) : slot < size := by
  obtain ⟨k, -, hk, -⟩ := (scan_eq_some_iff hhome).mp hscan
  rw [← hk]
  exact probeAt_lt (by omega)

theorem scan_stops (hhome : home < size)
    (hscan : scan stop size home probes = some slot) : stop slot = true := by
  obtain ⟨k, -, -, hstop, -⟩ := (scan_eq_some_iff hhome).mp hscan
  exact hstop

/-- A full-turn scan returns a slot as soon as one satisfies the test, and it
returns no slot behind that one. -/
theorem scan_finds (stop : Nat → Bool) (hhome : home < size) (hslot : slot < size)
    (hstop : stop slot = true) :
    ∃ hit, scan stop size home size = some hit ∧
      probeDistance size home hit ≤ probeDistance size home slot := by
  have hexists : ∃ k, stop (probeAt size home k) = true :=
    ⟨_, by rw [probeAt_probeDistance hhome hslot]; exact hstop⟩
  have hle : Nat.find hexists ≤ probeDistance size home slot :=
    Nat.find_min' hexists (by rw [probeAt_probeDistance hhome hslot]; exact hstop)
  have hdist : probeDistance size home slot < size := probeDistance_lt (by omega)
  refine ⟨probeAt size home (Nat.find hexists), ?_, ?_⟩
  · rw [scan_eq_some_iff hhome]
    refine ⟨Nat.find hexists, by omega, rfl, Nat.find_spec hexists, ?_⟩
    intro j hj
    simpa using Nat.find_min hexists hj
  · rw [probeDistance_probeAt hhome (by omega)]
    exact hle

/-- Every slot a scan has passed failed the test. -/
theorem scan_passed (hhome : home < size)
    (hscan : scan stop size home size = some slot) :
    ∀ k < probeDistance size home slot, stop (probeAt size home k) = false := by
  obtain ⟨k, hk, hslot, -, hbefore⟩ := (scan_eq_some_iff hhome).mp hscan
  rw [← hslot, probeDistance_probeAt hhome hk]
  exact hbefore

end Scan

section OpenAddressing

variable {occupied key : Nat → Bool} {size home slot : Nat}

/-- Filling further slots breaks no chain. -/
theorem ChainIntact.mono {more : Nat → Bool}
    (hmore : ∀ i, occupied i = true → more i = true)
    (hchain : ChainIntact occupied size home slot) :
    ChainIntact more size home slot :=
  fun k hk => hmore _ (hchain k hk)

/-- Open addressing stops at a free slot or at the key it looks for, and the slot where it
stops has an intact chain. -/
theorem chainIntact_of_scan (hhome : home < size)
    (hscan : scan (fun i => !occupied i || key i) size home size = some slot) :
    ChainIntact occupied size home slot := by
  intro k hk
  have hpassed := scan_passed hhome hscan k hk
  simp only [Bool.or_eq_false_iff, Bool.not_eq_false'] at hpassed
  exact hpassed.1

/-- With an intact chain before one of its slots, a scan for a key stops at an
occupied slot that holds the key. -/
theorem scan_finds_key (occupied key : Nat → Bool) (hhome : home < size) (hslot : slot < size)
    (hoccupied : occupied slot = true) (hkey : key slot = true)
    (hchain : ChainIntact occupied size home slot) :
    ∃ hit < size,
      scan (fun i => !occupied i || key i) size home size = some hit ∧
      occupied hit = true ∧ key hit = true := by
  obtain ⟨hit, hscan, hdist⟩ :=
    scan_finds (fun i => !occupied i || key i) hhome hslot (by simp [hkey])
  have hlt := scan_lt hhome hscan
  have hhit : occupied hit = true := by
    rcases Nat.lt_or_ge (probeDistance size home hit)
      (probeDistance size home slot) with hbefore | hsame
    · have hocc := hchain _ hbefore
      rwa [probeAt_probeDistance hhome hlt] at hocc
    · have heq : probeDistance size home hit = probeDistance size home slot := by
        omega
      have : hit = slot := by
        rw [← probeAt_probeDistance hhome hlt, heq,
          probeAt_probeDistance hhome hslot]
      rwa [this]
  have hstop := scan_stops hhome hscan
  simp only [hhit, Bool.not_true, Bool.false_or] at hstop
  exact ⟨hit, hlt, hscan, hhit, hstop⟩

/-- A scan for a key ends while there is a free slot. -/
theorem scan_ends (occupied key : Nat → Bool) (hhome : home < size) (hslot : slot < size)
    (hfree : occupied slot = false) :
    ∃ hit, scan (fun i => !occupied i || key i) size home size = some hit := by
  obtain ⟨hit, hscan, -⟩ :=
    scan_finds (fun i => !occupied i || key i) hhome hslot (by simp [hfree])
  exact ⟨hit, hscan⟩

end OpenAddressing

end AirspyhfWsprd.Library
