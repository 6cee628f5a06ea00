import Mathlib.Algebra.BigOperators.Group.Finset.Basic
import Mathlib.Algebra.BigOperators.Intervals
import Mathlib.Algebra.Order.Ring.Int
import Mathlib.Data.Int.ModEq
import Mathlib.Tactic.Abel

/-!
Decimation by a whole factor: the phase counter, and running sums and moving sums
of a signal that is zero before its start. A comb behind an integrator is a moving
sum, and two of each are a moving sum twice.
-/

namespace AirspyhfWsprd.Library

open Finset

section Phase

variable {factor n : Nat}

theorem phase_counts (h : n % factor + 1 < factor) :
    (n + 1) / factor = n / factor ∧ (n + 1) % factor = n % factor + 1 := by
  apply (Nat.div_mod_unique (Nat.zero_lt_of_lt h)).mpr
  refine ⟨?_, h⟩
  have hdiv := Nat.mod_add_div n factor
  omega

theorem phase_wraps (hpos : 0 < factor) (h : ¬ n % factor + 1 < factor) :
    (n + 1) / factor = n / factor + 1 ∧ (n + 1) % factor = 0 := by
  apply (Nat.div_mod_unique hpos).mpr
  refine ⟨?_, hpos⟩
  have hdiv := Nat.mod_add_div n factor
  have hmod := Nat.mod_lt n hpos
  rw [Nat.mul_succ]
  omega

theorem phase_full_iff (hpos : 0 < factor) : factor ∣ n + 1 ↔ ¬ n % factor + 1 < factor := by
  rw [Nat.dvd_iff_mod_eq_zero]
  constructor
  · intro hzero hlt
    rw [(phase_counts hlt).2] at hzero
    cases hzero
  · intro hfull
    exact (phase_wraps hpos hfull).2

end Phase

section Signals

variable {K : Type*}

/-- The circular history whose next write index is `n % taps`: read from there on,
it is the last `taps` samples before time `n`, oldest first. -/
def HoldsLast (taps : Nat) (history : Nat → K) (n : Nat) (x : Int → K) : Prop :=
  ∀ k < taps, history ((n + k) % taps) = x (n - taps + k)

/-- Writing the next value over the oldest one in a circular history leaves the last values of
the signal in it, each at its place. -/
theorem HoldsLast.write {taps n : Nat} {history : Nat → K} {x : Int → K}
    (h : HoldsLast taps history n x) :
    HoldsLast taps (Function.update history (n % taps) (x n)) (n + 1) x := by
  intro k hk
  rcases Nat.lt_or_ge (k + 1) taps with hlt | hge
  · have hother : (n + 1 + k) % taps ≠ n % taps := by
      rw [Nat.add_assoc, Nat.add_comm 1 k]
      intro heq
      have hzero : (n + (k + 1)) % taps = (n + 0) % taps := heq
      have hmod := Nat.ModEq.add_left_cancel' n hzero
      rw [Nat.ModEq, Nat.mod_eq_of_lt hlt, Nat.zero_mod] at hmod
      cases hmod
    rw [Function.update_of_ne hother, Nat.add_assoc, Nat.add_comm 1 k, h (k + 1) hlt]
    congr 1
    push_cast
    omega
  · have hlast : n + 1 + k = n + taps := by omega
    rw [hlast, Nat.add_mod_right, Function.update_self]
    congr 1
    omega

variable [Zero K]

/-- A stream of samples as a signal over all times, zero before the first sample. -/
def fromStart (x : Nat → K) (i : Int) : K := if 0 ≤ i then x i.toNat else 0

def StartsAtZero (x : Int → K) : Prop := ∀ i < 0, x i = 0

theorem fromStart_startsAtZero (x : Nat → K) : StartsAtZero (fromStart x) := by
  intro i hi
  exact if_neg (not_le.mpr hi)

@[simp] theorem fromStart_natCast (x : Nat → K) (n : Nat) : fromStart x n = x n := by
  rw [fromStart, if_pos (Int.natCast_nonneg n), Int.toNat_natCast]

theorem holdsLast_start {taps : Nat} {x : Int → K} (hx : StartsAtZero x) :
    HoldsLast taps (fun _ => 0) 0 x := by
  intro k hk
  exact (hx _ (by omega)).symm

end Signals

variable {K : Type*} [AddCommGroup K]

/-- The sum of the samples before time `i`. -/
def integral (x : Int → K) (i : Int) : K := ∑ k ∈ range i.toNat, x k

/-- The sum of the last `width` samples up to time `i`. -/
def boxcar (width : Nat) (x : Int → K) (i : Int) : K := ∑ a ∈ range width, x (i - a)

theorem integral_of_nonpos (x : Int → K) {i : Int} (h : i ≤ 0) : integral x i = 0 := by
  rw [integral, Int.toNat_of_nonpos h, range_zero, sum_empty]

theorem integral_add_one {x : Int → K} (hx : StartsAtZero x) (i : Int) :
    integral x (i + 1) = integral x i + x i := by
  rcases lt_or_ge i 0 with hneg | hpos
  · rw [integral_of_nonpos x (by omega), integral_of_nonpos x hneg.le, hx i hneg, add_zero]
  · obtain ⟨n, rfl⟩ := Int.eq_ofNat_of_zero_le hpos
    exact sum_range_succ (fun k : Nat => x k) n

theorem integral_startsAtZero (x : Int → K) : StartsAtZero fun i => integral x (i + 1) := by
  intro i hi
  exact integral_of_nonpos x (by omega)

/-- The running sum of a delayed signal is the delayed running sum, because the signal is zero
before its start. -/
theorem integral_shift {x : Int → K} (hx : StartsAtZero x) (delay : Nat) (i : Int) :
    integral (fun k => x (k - delay)) i = integral x (i - delay) := by
  have hshifted : StartsAtZero fun k => x (k - delay) := fun k hk => hx _ (by omega)
  rcases lt_or_ge i 0 with hneg | hpos
  · rw [integral_of_nonpos _ hneg.le, integral_of_nonpos _ (by omega)]
  · obtain ⟨n, rfl⟩ := Int.eq_ofNat_of_zero_le hpos
    induction n with
    | zero => rw [integral_of_nonpos _ (by omega), integral_of_nonpos _ (by omega)]
    | succ n ih =>
        have hnext : ((n + 1 : Nat) : Int) - delay = (n : Int) - delay + 1 := by
          push_cast
          abel
        rw [hnext, integral_add_one hx, Nat.cast_succ, integral_add_one hshifted,
          ih (Int.natCast_nonneg n)]

theorem integral_sub (x y : Int → K) (i : Int) :
    integral (fun k => x k - y k) i = integral x i - integral y i :=
  sum_sub_distrib _ _

theorem boxcar_eq_integral {x : Int → K} (hx : StartsAtZero x) (width : Nat) (i : Int) :
    boxcar width x i = integral x (i + 1) - integral x (i + 1 - width) := by
  induction width with
  | zero => rw [boxcar, range_zero, sum_empty, Nat.cast_zero, sub_zero, sub_self]
  | succ width ih =>
      have hlast : i + 1 - (width : Int) = i - width + 1 := by abel
      have hnext : i + 1 - ((width + 1 : Nat) : Int) = i - width := by
        push_cast
        abel
      rw [boxcar, sum_range_succ, ← boxcar, ih, hlast, hnext,
        integral_add_one hx (i - width)]
      abel

theorem boxcar_startsAtZero {x : Int → K} (hx : StartsAtZero x) (width : Nat) :
    StartsAtZero (boxcar width x) := by
  intro i hi
  exact sum_eq_zero fun a _ => hx _ (by omega)

/-- Two integrators. -/
def doubleIntegral (x : Int → K) (i : Int) : K := integral (fun k => integral x (k + 1)) i

theorem doubleIntegral_of_nonpos (x : Int → K) {i : Int} (h : i ≤ 0) : doubleIntegral x i = 0 :=
  integral_of_nonpos _ h

theorem doubleIntegral_add_one (x : Int → K) (i : Int) :
    doubleIntegral x (i + 1) = doubleIntegral x i + integral x (i + 1) :=
  integral_add_one (integral_startsAtZero x) i

theorem integral_boxcar {x : Int → K} (hx : StartsAtZero x) (width : Nat) (i : Int) :
    integral (boxcar width x) i = doubleIntegral x i - doubleIntegral x (i - width) := by
  have hwindow : boxcar width x =
      fun k => integral x (k + 1) - integral x (k - width + 1) := by
    funext k
    rw [boxcar_eq_integral hx]
    congr 2
    abel
  rw [hwindow, integral_sub, doubleIntegral, doubleIntegral,
    ← integral_shift (integral_startsAtZero x)]

/-- Two combs behind two integrators are a moving sum of a moving sum. -/
theorem boxcar_boxcar {x : Int → K} (hx : StartsAtZero x) (width : Nat) (i : Int) :
    boxcar width (boxcar width x) i =
      (doubleIntegral x (i + 1) - doubleIntegral x (i + 1 - width)) -
        (doubleIntegral x (i + 1 - width) - doubleIntegral x (i + 1 - width - width)) := by
  rw [boxcar_eq_integral (boxcar_startsAtZero hx width), integral_boxcar hx, integral_boxcar hx]

end AirspyhfWsprd.Library
