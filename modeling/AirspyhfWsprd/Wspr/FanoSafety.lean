import AirspyhfWsprd.Wspr.FanoDecoding

/-!
What the loop of the Fano decoder keeps within bounds: the node pointer, and the threshold
and the metrics, which the source has in variables of type `int`. Its result does not
depend on what the memory of the nodes held before.
-/

namespace AirspyhfWsprd.Wspr

open Library

variable {symbols : List UInt8} {nbits : Nat} {mettab : Nat → UInt8 → Int}

/-- The values of an `int` -/
def IsInt (value : Int) : Prop := -2 ^ 31 ≤ value ∧ value < 2 ^ 31

instance (value : Int) : Decidable (IsInt value) := inferInstanceAs (Decidable (_ ∧ _))

theorem bitMetric_bound {bound : Int} (hmettab : ∀ sent < 2, ∀ got, |mettab sent got| ≤ bound)
    (bits : List Bool) (bit : Bool) : |bitMetric symbols mettab bits bit| ≤ 2 * bound := by
  have hsym := encodePair_lt (stateAfter (bits ++ [bit]))
  have hfirst : encodePair (stateAfter (bits ++ [bit])) >>> 1 < 2 := by
    rw [Nat.shiftRight_eq_div_pow]
    omega
  have hsecond : encodePair (stateAfter (bits ++ [bit])) &&& 1 < 2 :=
    Nat.and_lt_two_pow (n := 1) _ (by decide)
  rw [bitMetric, metricsAt, branchMetrics_getD _ _ _ hsym, Int.two_mul]
  exact (abs_add_le _ _).trans (add_le_add (hmettab _ hfirst _) (hmettab _ hsecond _))

theorem hardMetric_bound : ∀ sent < 2, ∀ got, |hardMetric sent got| ≤ 1 := by
  intro sent _ got
  unfold hardMetric
  split
  · decide
  · decide

theorem pathMetric_bound {bound : Int} (hmettab : ∀ sent < 2, ∀ got, |mettab sent got| ≤ bound)
    (bits : List Bool) : |pathMetric symbols mettab bits| ≤ 2 * bound * bits.length := by
  induction bits using List.reverseRecOn with
  | nil => simp [pathMetric]
  | append_singleton bits bit ih =>
      rw [pathMetric_concat, List.length_append, List.length_singleton, Nat.cast_succ, mul_add,
        mul_one]
      exact (abs_add_le _ _).trans (add_le_add ih (bitMetric_bound hmettab bits bit))

/-- **The loop stays within its nodes and its integers.** After any number of cycles the
node pointer is at one of the `nbits + 1` nodes, and each value that the next cycle
computes of the threshold and the metrics is one of an `int`. -/
theorem fano_bounds (heap : Nat → FanoNode) {delta bound : Int} (hnbits : 31 < nbits)
    (hdelta : 0 < delta) (hmettab : ∀ sent < 2, ∀ got, |mettab sent got| ≤ bound) (cycles : Nat)
    (hbound : 2 * bound * (nbits + 1) + delta * (cycles + 1) < 2 ^ 31) :
    let state := (fanoLoop nbits delta cycles 1 (fanoStart heap symbols nbits mettab)).2
    let node := state.nodes state.np
    state.np ≤ nbits ∧ IsInt node.gamma ∧ IsInt (state.t - delta) ∧ IsInt (state.t + delta) ∧
      (state.np < nbits → IsInt (node.gamma + node.tested)) := by
  obtain ⟨count, last, hruns, hlast, hend⟩ := fanoLoop_runs hdelta cycles 1
    (represents_start symbols mettab heap hnbits)
    (show 0 < nbits by omega)
  intro state node
  have hnp : state.np ≤ nbits := hlast.np.trans_le (linked_metric hlast.linked).2.1
  obtain ⟨htop, hlow⟩ := hruns.threshold hdelta (le_refl 0)
  simp only at hlow
  have hthreshold : state.t = last.threshold := hlast.t
  have hgamma : node.gamma = last.top.metric := hlast.gamma
  have hcount : count ≤ cycles := by omega
  have hnonneg : 0 ≤ bound := (abs_nonneg _).trans (hmettab 0 (by decide) 0)
  have hmetric : |node.gamma| ≤ 2 * bound * nbits := by
    rw [hgamma, (linked_metric hlast.linked).1]
    apply (pathMetric_bound hmettab _).trans
    apply mul_le_mul_of_nonneg_left _ (by omega)
    exact_mod_cast (linked_metric hlast.linked).2.1
  have hlowered : delta * count ≤ delta * cycles :=
    mul_le_mul_of_nonneg_left (by exact_mod_cast hcount) hdelta.le
  have hdown : 0 ≤ delta * cycles := mul_nonneg hdelta.le (Int.natCast_nonneg _)
  rw [mul_add, mul_add, mul_one, mul_one] at hbound
  rw [abs_le] at hmetric
  simp only [IsInt]
  refine ⟨hnp, by omega, by omega, by omega, fun hlt => ?_⟩
  obtain ⟨child, hbranch, -⟩ := (hlast.top hlt).tested
  obtain ⟨-, bit, hbit, -⟩ := codeBranches_of_mem (List.mem_of_getElem? hbranch)
  have htested : |node.tested| ≤ 2 * bound := by
    rw [show node.tested = bitMetric symbols mettab last.top.node bit from congrArg Prod.fst hbit]
    exact bitMetric_bound hmettab _ _
  rw [abs_le] at htested
  omega

/-- A table of ones and a threshold step of 60 are well within the bounds. -/
theorem zeroSymbols_bounds :
    let state := (fanoLoop 81 60 810000 1 (fanoStart clearedHeap zeroSymbols 81 hardMetric)).2
    let node := state.nodes state.np
    state.np ≤ 81 ∧ IsInt node.gamma ∧ IsInt (state.t - 60) ∧ IsInt (state.t + 60) ∧
      (state.np < 81 → IsInt (node.gamma + node.tested)) :=
  fano_bounds clearedHeap (by decide) (by decide) hardMetric_bound 810000 (by decide)

theorem lookBack_maxnp (delta : Int) (nodes : Nat → FanoNode) (t : Int) (maxnp np : Nat) :
    (lookBack nbits delta nodes t maxnp np).maxnp = maxnp := by
  induction np with
  | zero => rfl
  | succ np ih =>
      simp only [lookBack]
      split
      · rfl
      · split
        · rfl
        · exact ih

theorem fanoCycle_maxnp (delta : Int) (state : FanoState) :
    (fanoCycle nbits delta state).maxnp = max state.maxnp state.np := by
  simp only [fanoCycle]
  split
  · rfl
  · exact lookBack_maxnp _ _ _ _ _

/-- Two states of the decoder that stand for the same search go on alike. -/
theorem fanoLoop_congr {delta : Int} (hdelta : 0 < delta) (left i : Nat) {state other : FanoState}
    {search : ThresholdSearch (List Bool)} (h : Represents symbols nbits mettab state search)
    (h' : Represents symbols nbits mettab other search) (hmaxnp : state.maxnp = other.maxnp)
    (hnp : state.np < nbits) :
    (fanoLoop nbits delta left i state).1 = (fanoLoop nbits delta left i other).1 ∧
      (fanoLoop nbits delta left i state).2.maxnp = (fanoLoop nbits delta left i other).2.maxnp ∧
      ∃ last, Represents symbols nbits mettab (fanoLoop nbits delta left i state).2 last ∧
        Represents symbols nbits mettab (fanoLoop nbits delta left i other).2 last := by
  induction left generalizing i state other search with
  | zero => exact ⟨rfl, hmaxnp, search, h, h'⟩
  | succ left ih =>
      have hsame : state.np = other.np := h.np.trans h'.np.symm
      have hnext := represents_cycle hdelta h hnp
      have hnext' := represents_cycle hdelta h' (hsame ▸ hnp)
      have hnextnp : (fanoCycle nbits delta state).np = (fanoCycle nbits delta other).np :=
        hnext.np.trans hnext'.np.symm
      have hnextmax : (fanoCycle nbits delta state).maxnp =
          (fanoCycle nbits delta other).maxnp := by
        rw [fanoCycle_maxnp, fanoCycle_maxnp, hmaxnp, hsame]
      have hle := fanoCycle_np_le hdelta h hnp
      simp only [fanoLoop, ← hnextnp]
      split
      · exact ⟨rfl, hnextmax, _, hnext, hnext'⟩
      · exact ih (i + 1) hnext hnext' hnextmax (by omega)

/-- **Nothing is read of the memory that `malloc` returns** before it is written: what it
held changes neither the result nor the metric, the cycles and the progress, and not the
data when there is any. -/
theorem fano_heap (heap other : Nat → FanoNode) {delta : Int} {maxcycles : Nat}
    (hnbits : 31 < nbits) (hdelta : 0 < delta) :
    let first := fano heap symbols nbits mettab delta maxcycles
    let second := fano other symbols nbits mettab delta maxcycles
    first.result = second.result ∧ first.metric = second.metric ∧ first.cycles = second.cycles ∧
      first.maxnp = second.maxnp ∧ (first.result = 0 → first.data = second.data) := by
  obtain ⟨hi, hmaxnp, last, hlast, hlast'⟩ := fanoLoop_congr hdelta (maxcycles * nbits % 2 ^ 32) 1
    (represents_start symbols mettab heap hnbits)
    (represents_start _ _ other hnbits) rfl (show 0 < nbits by omega)
  have hgamma := hlast.gamma.trans hlast'.gamma.symm
  intro first second
  have hresult : first.result = second.result := by
    simp only [first, second, fano, hi]
  refine ⟨hresult, ?_, ?_, hmaxnp, ?_⟩
  · simp only [first, second, fano, hgamma]
  · simp only [first, second, fano, hi]
  · intro hzero
    obtain ⟨count, found, hruns, -, -, hlength, hbits, -⟩ := fano_found hnbits hdelta hzero
    obtain ⟨count', found', hruns', -, -, hlength', hbits', -⟩ :=
      fano_found hnbits hdelta (hresult.symm.trans hzero)
    have hgoal : (codeTree symbols nbits mettab).height found.top.node = 0 := by
      simp only [codeTree, hlength, Nat.sub_self]
    have hgoal' : (codeTree symbols nbits mettab).height found'.top.node = 0 := by
      simp only [codeTree, hlength', Nat.sub_self]
    obtain ⟨-, rfl⟩ := hruns.unique hgoal hruns' hgoal'
    exact dataBits_injective (hbits.trans hbits'.symm)

/-- The memory holds zeros in one run and something else in the other. -/
theorem zeroSymbols_heap :
    let first := fano clearedHeap zeroSymbols 81 hardMetric 60 10000
    let second := fano (fun k => ⟨1, k, [5], (7, 7), 1⟩) zeroSymbols 81 hardMetric 60 10000
    first.result = second.result ∧ first.metric = second.metric ∧ first.cycles = second.cycles ∧
      first.maxnp = second.maxnp ∧ (first.result = 0 → first.data = second.data) :=
  fano_heap clearedHeap _ (by decide) (by decide)

end AirspyhfWsprd.Wspr
