import AirspyhfWsprd.Wspr.FanoSearch
import Mathlib.Data.List.GetD

/-!
What the Fano decoder finds. A path that it returns is a codeword with a zero tail and with
the metric that it reports, and no codeword has a lowest metric better by a step of the
threshold. The decoder finds such a path in a bounded number of cycles, and it goes
straight to the sent data when every symbol is received on the right side.
-/

namespace AirspyhfWsprd.Wspr

open Library

/-- The sum of the metrics of sent symbols with the received ones. -/
def correlation (mettab : Nat → UInt8 → Int) (code received : List UInt8) : Int :=
  ((code.zip received).map fun pair => mettab pair.1.toNat pair.2).sum

/-- The code symbols of the first bits of the data, which one zero byte follows. -/
def codeOf (data : List UInt8) (count : Nat) : List UInt8 := (encode (data ++ [0])).take (2 * count)

section

variable {symbols : List UInt8} {nbits : Nat} {mettab : Nat → UInt8 → Int}

theorem branchMetrics_getD (first second : UInt8) : ∀ sym < 4,
    (branchMetrics mettab first second).getD sym 0 =
      mettab (sym >>> 1) first + mettab (sym &&& 1) second
  | 0, _ | 1, _ | 2, _ | 3, _ => rfl

/-- The metric of a path with one more bit is that of the path and of the bit. -/
theorem pathMetric_concat (bits : List Bool) (bit : Bool) :
    pathMetric symbols mettab (bits ++ [bit]) =
      pathMetric symbols mettab bits + bitMetric symbols mettab bits bit := by
  have hbefore : (List.range bits.length).map (fun k =>
        bitMetric symbols mettab ((bits ++ [bit]).take k) ((bits ++ [bit]).getD k false)) =
      (List.range bits.length).map fun k =>
        bitMetric symbols mettab (bits.take k) (bits.getD k false) := by
    apply List.map_congr_left
    intro k hk
    have hk := List.mem_range.mp hk
    rw [List.take_append_of_le_length hk.le, List.getD_append _ _ _ _ hk]
  rw [pathMetric, List.length_append, List.length_singleton, List.range_succ, List.map_append,
    hbefore, List.sum_append, List.map_singleton, List.sum_singleton, List.take_left,
    List.getD_append_right _ _ _ _ le_rfl, Nat.sub_self, List.getD_cons_zero, pathMetric]

/-- One more code symbol adds its metric with the received symbol at its place. -/
theorem correlation_concat {code received : List UInt8} (h : code.length < received.length)
    (sent : UInt8) :
    correlation mettab (code ++ [sent]) received =
      correlation mettab code received + mettab sent.toNat (received.getD code.length 0) := by
  induction code generalizing received with
  | nil =>
      cases received with
      | nil => exact absurd h (Nat.lt_irrefl 0)
      | cons got received => simp [correlation]
  | cons first code ih =>
      cases received with
      | nil => exact absurd h (Nat.not_lt_zero _)
      | cons got received =>
          have hrest := ih (Nat.lt_of_succ_lt_succ h)
          simp only [correlation, List.cons_append, List.zip_cons_cons, List.map_cons,
            List.sum_cons, List.length_cons, List.getD_cons_succ] at hrest ⊢
          rw [hrest, add_assoc]

/-- The metric of a path is the correlation of its code symbols with the received ones. -/
theorem pathMetric_eq_correlation {bits : List Bool} (h : 2 * bits.length ≤ symbols.length) :
    pathMetric symbols mettab bits = correlation mettab (encodeBits 0 bits) symbols := by
  induction bits using List.reverseRecOn with
  | nil => rfl
  | append_singleton bits bit ih =>
      rw [List.length_append, List.length_singleton] at h
      have hpair := encodePair_lt (stateAfter (bits ++ [bit]))
      have hfirst : encodePair (stateAfter (bits ++ [bit])) >>> 1 < 256 := by
        rw [Nat.shiftRight_eq_div_pow]
        omega
      have hsecond : encodePair (stateAfter (bits ++ [bit])) &&& 1 < 256 :=
        lt_of_le_of_lt Nat.and_le_right (by decide)
      rw [pathMetric_concat, encodeBits_concat, ih (by omega), List.append_cons,
        correlation_concat (by simp; omega), correlation_concat (by simp; omega), bitMetric,
        metricsAt, branchMetrics_getD _ _ _ hpair, UInt8.toNat_ofNat_of_lt' hfirst,
        UInt8.toNat_ofNat_of_lt' hsecond]
      simp only [List.length_append, encodeBits_length, List.length_singleton, add_assoc]

/-- Every node of the path has the metric of its bits, and the tail is zero. -/
theorem linked_metric {top : Frame (List Bool)} {below : List (Frame (List Bool))}
    (h : (codeTree symbols nbits mettab).Linked [] top below) :
    top.metric = pathMetric symbols mettab top.node ∧ top.node.length ≤ nbits ∧
      ∀ bit ∈ top.node.drop (nbits - 31), bit = false := by
  induction below generalizing top with
  | nil =>
      obtain ⟨hnode, hmetric⟩ := h
      rw [hnode, hmetric]
      exact ⟨rfl, Nat.zero_le _, by simp⟩
  | cons previous below ih =>
      obtain ⟨hmetric, -, htail⟩ := ih h.2
      obtain ⟨hlength, bit, hbit, hzero⟩ := codeBranches_of_mem (List.mem_of_getElem? h.1)
      obtain ⟨hgain, hnode⟩ := Prod.ext_iff.mp hbit
      simp only at hgain hnode
      refine ⟨?_, ?_, ?_⟩
      · rw [hnode, pathMetric_concat, ← hmetric, ← hgain]
        omega
      · rw [hnode, List.length_append, List.length_singleton]
        omega
      · intro last hlast
        rw [hnode, List.drop_append] at hlast
        obtain hlast | hlast := List.mem_append.mp hlast
        · exact htail last hlast
        · have hdrop := List.mem_of_mem_drop hlast
          rw [List.mem_singleton.mp hdrop]
          apply hzero
          by_contra hbefore
          rw [List.drop_of_length_le (by simp; omega)] at hlast
          exact List.not_mem_nil hlast

/-- Each node before the last one of the path has a frame, whose branch leads on along the
path. -/
theorem linked_frame {top : Frame (List Bool)} {below : List (Frame (List Bool))}
    (h : (codeTree symbols nbits mettab).Linked [] top below) {k : Nat}
    (hk : k < top.node.length) :
    ∃ frame ∈ below, ∃ gain, frame.node = top.node.take k ∧
      (codeBranches symbols nbits mettab frame.node)[frame.branch]? =
        some (gain, top.node.take (k + 1)) := by
  induction below generalizing top with
  | nil =>
      rw [h.1] at hk
      exact absurd hk (Nat.not_lt_zero _)
  | cons previous below ih =>
      obtain ⟨-, bit, hbit, -⟩ := codeBranches_of_mem (List.mem_of_getElem? h.1)
      obtain ⟨-, hnode⟩ := Prod.ext_iff.mp hbit
      simp only at hnode
      have hget := h.1
      rw [hnode] at hk hget ⊢
      rw [List.length_append, List.length_singleton] at hk
      obtain hlast | hbefore := Nat.lt_succ_iff_lt_or_eq.mp hk
      · obtain ⟨frame, hframe, gain, htake, hbranch⟩ := ih h.2 hlast
        rw [List.take_append_of_le_length hlast.le, List.take_append_of_le_length hlast]
        exact ⟨frame, List.mem_cons_of_mem _ hframe, gain, htake, hbranch⟩
      · refine ⟨previous, List.mem_cons_self, top.metric - previous.metric, ?_, ?_⟩
        · rw [hbefore, List.take_left]
        · rw [hbefore, List.take_of_length_le (by simp)]
          exact hget

theorem mem_codeBranches {bits : List Bool} {bit : Bool} (hlength : bits.length < nbits)
    (htail : nbits - 31 ≤ bits.length → bit = false) :
    (bitMetric symbols mettab bits bit, bits ++ [bit]) ∈
      codeBranches symbols nbits mettab bits := by
  by_cases h : nbits - 31 ≤ bits.length
  · rw [codeBranches_tail hlength h, htail h]
    exact List.mem_singleton_self _
  · obtain ⟨first, hbranches⟩ := codeBranches_pair symbols mettab
      (not_le.mp h)
    rw [hbranches]
    cases first <;> cases bit <;> simp

theorem bit_of_tail {bits : List Bool} (h : ∀ bit ∈ bits.drop (nbits - 31), bit = false) {k : Nat}
    (hk : k < bits.length) (htail : nbits - 31 ≤ k) : bits[k] = false := by
  have hsum : nbits - 31 + (k - (nbits - 31)) = k := by omega
  apply h
  rw [List.mem_drop_iff_getElem]
  refine ⟨k - (nbits - 31), by omega, ?_⟩
  simp only [hsum]

/-- A word with a zero tail is a path, with the metrics of its first bits. -/
theorem keeps_of_word {bits : List Bool} {lowest : Int} (hlength : bits.length = nbits)
    (htail : ∀ bit ∈ bits.drop (nbits - 31), bit = false)
    (hlowest : ∀ k ≤ nbits, lowest ≤ pathMetric symbols mettab (bits.take k)) (left : Nat) :
    ∀ k, k + left = nbits → (codeTree symbols nbits mettab).Keeps lowest (bits.take k)
      (pathMetric symbols mettab (bits.take k)) := by
  induction left with
  | zero =>
      intro k hk
      refine .goal ?_ (hlowest k (by omega))
      simp only [codeTree, List.length_take]
      omega
  | succ left ih =>
      intro k hk
      have hindex : k < bits.length := by omega
      have hnext : bits.take (k + 1) = bits.take k ++ [bits[k]] :=
        List.take_succ_eq_append_getElem hindex
      have hmem : (bitMetric symbols mettab (bits.take k) bits[k], bits.take k ++ [bits[k]]) ∈
          codeBranches symbols nbits mettab (bits.take k) := by
        apply mem_codeBranches
        · rw [List.length_take]
          omega
        · intro hdepth
          rw [List.length_take] at hdepth
          exact bit_of_tail htail hindex (by omega)
      have hrest := ih (k + 1) (by omega)
      rw [hnext, pathMetric_concat] at hrest
      exact .branch (hlowest k (by omega)) hmem hrest

/-- The decoder begins at the root, with the threshold zero and the better of the two branches
to test first. -/
theorem represents_start (symbols mettab) (heap : Nat → FanoNode) (hnbits : 31 < nbits) :
    Represents symbols nbits mettab (fanoStart heap symbols nbits mettab) ⟨⟨[], 0, 0⟩, [], 0⟩ := by
  have hmetrics : ∀ k < nbits,
      (fanoNodes heap symbols nbits mettab k).metrics = metricsAt symbols mettab k := by
    intro k hk
    rw [fanoNodes, if_pos hk, metricsAt]
  have hroot : stateAfter ([] ++ [false]) = 0 := by decide
  have hfirst : StandsFor symbols nbits mettab
      { fanoNodes heap symbols nbits mettab 0 with encstate := 0 }.sorted ⟨[], _, 0⟩ :=
    standsFor_sorted (show 0 < nbits - 31 by omega) (hmetrics 0 (by omega)) hroot.symm
  refine represents_update hmetrics ?_ ⟨rfl, rfl⟩ rfl rfl (fun _ => ?_)
    (fun frame hframe => absurd hframe List.not_mem_nil)
  · simp only [FanoNode.sorted]
    split <;> rfl
  · exact ⟨rfl, hfirst.i, hfirst.encstate, hfirst.tm⟩

theorem fanoCycle_np_le {state : FanoState} {search : ThresholdSearch (List Bool)} {delta : Int}
    (hdelta : 0 < delta) (h : Represents symbols nbits mettab state search)
    (hnp : state.np < nbits) : (fanoCycle nbits delta state).np ≤ nbits := by
  have hnext := represents_cycle hdelta h hnp
  rw [hnext.np]
  exact (linked_metric hnext.linked).2.1

/-- The loop is a run of the search: to the end of a path with the counter at the number of
its steps, or for as many steps as there are cycles. -/
theorem fanoLoop_runs {delta : Int} (hdelta : 0 < delta) (left i : Nat) {state : FanoState}
    {search : ThresholdSearch (List Bool)} (h : Represents symbols nbits mettab state search)
    (hnp : state.np < nbits) :
    ∃ count last, (codeTree symbols nbits mettab).Runs delta count search last ∧
      Represents symbols nbits mettab (fanoLoop nbits delta left i state).2 last ∧
      (count ≤ left ∧ (fanoLoop nbits delta left i state).2.np = nbits ∧
          (fanoLoop nbits delta left i state).1 + 1 = i + count ∨
        count = left ∧ (fanoLoop nbits delta left i state).2.np < nbits ∧
          (fanoLoop nbits delta left i state).1 = i + left) := by
  induction left generalizing i state search with
  | zero => exact ⟨0, search, .refl _, h, .inr ⟨rfl, hnp, rfl⟩⟩
  | succ left ih =>
      have hheight : 0 < (codeTree symbols nbits mettab).height search.top.node := by
        simp only [codeTree, ← h.np]
        omega
      have hnext := represents_cycle hdelta h hnp
      have hle := fanoCycle_np_le hdelta h hnp
      simp only [fanoLoop]
      split
      · next hdone => exact ⟨1, _, .step hheight (.refl _), hnext, .inl ⟨by omega, hdone, rfl⟩⟩
      · next hgoing =>
          obtain ⟨count, last, hruns, hlast, hend⟩ := ih (i + 1) hnext (by omega)
          refine ⟨count + 1, last, .step hheight hruns, hlast, ?_⟩
          omega

/-- A result of zero comes from a run to the end of a path. -/
theorem fano_runs {heap : Nat → FanoNode} {delta : Int} {maxcycles : Nat} (hnbits : 31 < nbits)
    (hdelta : 0 < delta) (h : (fano heap symbols nbits mettab delta maxcycles).result = 0) :
    ∃ count state last,
      (codeTree symbols nbits mettab).Runs delta count ⟨⟨[], 0, 0⟩, [], 0⟩ last ∧
      Represents symbols nbits mettab state last ∧ state.np = nbits ∧
      (fano heap symbols nbits mettab delta maxcycles).metric =
        ((state.nodes nbits).gamma % 2 ^ 32).toNat ∧
      (fano heap symbols nbits mettab delta maxcycles).data = (List.range (nbits / 8)).map fun k =>
        UInt8.ofNat (state.nodes (7 + 8 * k)).encstate.toNat := by
  obtain ⟨count, last, hruns, hlast, hend⟩ := fanoLoop_runs hdelta (maxcycles * nbits % 2 ^ 32) 1
    (represents_start symbols mettab heap hnbits)
    (show 0 < nbits by omega)
  simp only [fano] at h ⊢
  obtain ⟨hcount, hnp, hi⟩ | ⟨hcount, hnp, hi⟩ := hend
  · exact ⟨count, _, last, hruns, hlast, hnp, by rw [hnp], rfl⟩
  · rw [if_pos (by omega)] at h
    exact absurd h (by decide)

/-- Where the search takes `count` steps to the end of a path, the loop gets there in `count`
cycles, and with fewer of them it stops on the way. -/
theorem fanoLoop_of_runs (heap : Nat → FanoNode) {delta : Int} {count : Nat}
    {found : ThresholdSearch (List Bool)} (hnbits : 31 < nbits) (hdelta : 0 < delta)
    (hfound : (codeTree symbols nbits mettab).Runs delta count ⟨⟨[], 0, 0⟩, [], 0⟩ found)
    (hgoal : (codeTree symbols nbits mettab).height found.top.node = 0) (left : Nat) :
    let ended := fanoLoop nbits delta left 1 (fanoStart heap symbols nbits mettab)
    count ≤ left ∧ ended.2.np = nbits ∧ ended.1 = count ∨
      left < count ∧ ended.2.np < nbits ∧ ended.1 = left + 1 := by
  obtain ⟨taken, last, hruns, hlast, hend⟩ := fanoLoop_runs hdelta left 1
    (represents_start symbols mettab heap hnbits)
    (show 0 < nbits by omega)
  obtain ⟨hleft, hnp, hi⟩ | ⟨rfl, hnp, hi⟩ := hend
  · have hlast' : (codeTree symbols nbits mettab).height last.top.node = 0 := by
      simp only [codeTree, ← hlast.np, hnp, Nat.sub_self]
    obtain ⟨rfl, -⟩ := hruns.unique hlast' hfound hgoal
    exact .inl ⟨hleft, hnp, by omega⟩
  · have hheight : 0 < (codeTree symbols nbits mettab).height last.top.node := by
      simp only [codeTree, ← hlast.np]
      omega
    have hmore := (hruns.snoc hheight).le_of_goal hfound hgoal
    exact .inr ⟨hmore, hnp, hi.trans (Nat.add_comm 1 taken)⟩

/-- The decoder returns zero exactly when it is given more cycles than the search takes
steps. -/
theorem fano_of_runs (heap : Nat → FanoNode) {delta : Int} {count : Nat}
    {found : ThresholdSearch (List Bool)} (hnbits : 31 < nbits) (hdelta : 0 < delta)
    (hfound : (codeTree symbols nbits mettab).Runs delta count ⟨⟨[], 0, 0⟩, [], 0⟩ found)
    (hgoal : (codeTree symbols nbits mettab).height found.top.node = 0) (maxcycles : Nat) :
    let decoded := fano heap symbols nbits mettab delta maxcycles
    (decoded.result = 0 ↔ count < maxcycles * nbits % 2 ^ 32) ∧
      (decoded.result = 0 → decoded.cycles = count + 1) := by
  have hend := fanoLoop_of_runs heap hnbits hdelta hfound hgoal (maxcycles * nbits % 2 ^ 32)
  simp only [fano] at hend ⊢
  obtain ⟨hleft, -, hi⟩ | ⟨hleft, -, hi⟩ := hend
  · rw [hi]
    split
    · next hlate =>
        exact ⟨⟨fun h => absurd h (by decide), fun h => absurd h (by omega)⟩, fun _ => rfl⟩
    · next hearly => exact ⟨⟨fun _ => by omega, fun _ => rfl⟩, fun _ => rfl⟩
  · rw [hi, if_pos (by omega)]
    exact ⟨⟨fun h => absurd h (by decide), fun h => absurd h (by omega)⟩,
      fun h => absurd h (by decide)⟩

/-- The bits of the encoder's register are the last bits shifted in, the newest one lowest. The
register has 64 bits here, so it still holds bits that the polynomials do not see. -/
theorem stateAfter_getLsbD (bits : List Bool) : ∀ i < 64, i < bits.length →
    (stateAfter bits).getLsbD i = bits.getD (bits.length - 1 - i) false := by
  induction bits using List.reverseRecOn with
  | nil => exact fun i _ hi => absurd hi (Nat.not_lt_zero i)
  | append_singleton bits bit ih =>
      intro i hi hlength
      rw [List.length_append, List.length_singleton] at hlength ⊢
      rw [stateAfter_concat, Nat.add_sub_cancel]
      cases i with
      | zero => rw [shiftIn_getLsbD_zero, Nat.sub_zero, List.getD_append_right _ _ _ _ le_rfl,
          Nat.sub_self, List.getD_cons_zero]
      | succ i =>
          rw [shiftIn_getLsbD_succ _ _ (by omega), ih i (by omega) (by omega),
            List.getD_append _ _ _ _ (by omega)]
          congr 1
          omega

/-- The low byte of an encoder state holds the last eight bits. -/
theorem byteBits_stateAfter {bits : List Bool} (h : 8 ≤ bits.length) :
    (List.range 8).map (fun i =>
      (UInt8.ofNat (stateAfter bits).toNat).toNat.testBit (7 - i)) =
        bits.drop (bits.length - 8) := by
  apply List.ext_getElem
  · simp
    omega
  · intro i hi hi'
    rw [List.length_map, List.length_range] at hi
    rw [List.getElem_map, List.getElem_range, UInt8.toNat_ofNat', Nat.testBit_mod_two_pow,
      BitVec.testBit_toNat, stateAfter_getLsbD bits _ (by omega) (by omega), List.getElem_drop,
      List.getD_eq_getElem _ _ (by omega)]
    simp only [show 7 - i < 8 by omega, decide_true, Bool.true_and]
    congr 1
    omega

/-- Bytes made of eight bits each are the bits. -/
theorem dataBits_map {bits : List Bool} {count : Nat} (byte : Nat → UInt8)
    (hbyte : ∀ k < count, (List.range 8).map (fun i => (byte k).toNat.testBit (7 - i)) =
      (bits.drop (8 * k)).take 8) :
    dataBits ((List.range count).map byte) = bits.take (8 * count) := by
  induction count with
  | zero => rfl
  | succ count ih =>
      rw [List.range_succ, List.map_append, dataBits, List.flatMap_append, List.map_singleton,
        List.flatMap_singleton, hbyte count (Nat.lt_succ_self _), Nat.mul_succ, List.take_add,
        ← ih fun k hk => hbyte k (Nat.lt_succ_of_lt hk), dataBits]

/-- The bits that the code is made of: those of the data and of a byte of zeros. -/
def wordOf (data : List UInt8) (nbits : Nat) : List Bool := (dataBits (data ++ [0])).take nbits

theorem dataBits_append (data more : List UInt8) :
    dataBits (data ++ more) = dataBits data ++ dataBits more := by
  simp only [dataBits, List.flatMap_append]

theorem dataBits_zero : dataBits [0] = List.replicate 8 false := by decide

theorem wordOf_length {data : List UInt8} (h : data.length = nbits / 8) :
    (wordOf data nbits).length = nbits := by
  rw [wordOf, List.length_take, dataBits_length, List.length_append, List.length_singleton]
  omega

theorem wordOf_tail {data : List UInt8}
    (h : ∀ bit ∈ (dataBits data).drop (nbits - 31), bit = false) :
    ∀ bit ∈ (wordOf data nbits).drop (nbits - 31), bit = false := by
  intro bit hbit
  rw [wordOf, List.drop_take, dataBits_append, List.drop_append, dataBits_zero] at hbit
  obtain hbit | hbit := List.mem_append.mp (List.mem_of_mem_take hbit)
  · exact h bit hbit
  · exact List.eq_of_mem_replicate (List.mem_of_mem_drop hbit)

theorem encodeBits_take (encstate : BitVec 64) (bits : List Bool) (k : Nat) :
    (encodeBits encstate bits).take (2 * k) = encodeBits encstate (bits.take k) := by
  induction k generalizing encstate bits with
  | zero => rfl
  | succ k ih =>
      cases bits with
      | nil => rfl
      | cons bit bits =>
          simp only [encodeBits, List.take_succ_cons, Nat.mul_succ, ih]

theorem codeOf_eq {data : List UInt8} {k : Nat} (hk : k ≤ nbits) :
    codeOf data k = encodeBits 0 ((wordOf data nbits).take k) := by
  rw [codeOf, encode, encodeBits_take, wordOf, List.take_take, Nat.min_eq_left hk]

/-- The whole bytes of a word with a zero tail determine it. -/
theorem wordOf_eq {data : List UInt8} {bits : List Bool} (hlength : bits.length = nbits)
    (hnbits : 31 < nbits) (htail : ∀ bit ∈ bits.drop (nbits - 31), bit = false)
    (hdata : dataBits data = bits.take (8 * (nbits / 8))) : wordOf data nbits = bits := by
  have hrest : bits.drop (8 * (nbits / 8)) = List.replicate (nbits - 8 * (nbits / 8)) false := by
    apply List.eq_replicate_iff.mpr
    refine ⟨by rw [List.length_drop, hlength], ?_⟩
    intro bit hbit
    apply htail
    have hsplit : 8 * (nbits / 8) = nbits - 31 + (8 * (nbits / 8) - (nbits - 31)) := by omega
    rw [hsplit, ← List.drop_drop] at hbit
    exact List.mem_of_mem_drop hbit
  have hbits := List.take_append_drop (8 * (nbits / 8)) bits
  have hfill : min (nbits - min (8 * (nbits / 8)) bits.length) 8 = nbits - 8 * (nbits / 8) := by
    omega
  rw [hrest] at hbits
  rw [wordOf, dataBits_append, hdata, dataBits_zero, List.take_append,
    List.take_of_length_le (by rw [List.length_take]; omega), List.take_replicate,
    List.length_take, hfill]
  exact hbits

theorem linked_metrics {top : Frame (List Bool)} {below : List (Frame (List Bool))}
    (h : (codeTree symbols nbits mettab).Linked [] top below) :
    ∀ frame ∈ top :: below, frame.metric = pathMetric symbols mettab frame.node := by
  induction below generalizing top with
  | nil =>
      intro frame hframe
      rw [List.mem_singleton.mp hframe]
      exact (linked_metric h).1
  | cons previous below ih =>
      intro frame hframe
      obtain rfl | hframe := List.mem_cons.mp hframe
      · exact (linked_metric h).1
      · exact ih h.2 frame hframe

/-- The word that the decoder found: its data, its metric and the run to it. -/
theorem fano_found {heap : Nat → FanoNode} {delta : Int} {maxcycles : Nat} (hnbits : 31 < nbits)
    (hdelta : 0 < delta) (h : (fano heap symbols nbits mettab delta maxcycles).result = 0) :
    ∃ count last,
      (codeTree symbols nbits mettab).Runs delta count ⟨⟨[], 0, 0⟩, [], 0⟩ last ∧
      (codeTree symbols nbits mettab).Linked [] last.top last.below ∧
      last.top.node = wordOf (fano heap symbols nbits mettab delta maxcycles).data nbits ∧
      last.top.node.length = nbits ∧
      dataBits (fano heap symbols nbits mettab delta maxcycles).data =
        last.top.node.take (8 * (nbits / 8)) ∧
      (fano heap symbols nbits mettab delta maxcycles).metric =
        (last.top.metric % 2 ^ 32).toNat := by
  obtain ⟨count, state, last, hruns, hlast, hnp, hmetric, hdata⟩ := fano_runs hnbits hdelta h
  have hlength : last.top.node.length = nbits := by rw [← hlast.np, hnp]
  have htail := (linked_metric hlast.linked).2.2
  have hbits : dataBits (fano heap symbols nbits mettab delta maxcycles).data =
      last.top.node.take (8 * (nbits / 8)) := by
    rw [hdata]
    apply dataBits_map
    intro k hk
    obtain ⟨frame, hframe, gain, hnode, hbranch⟩ :=
      linked_frame hlast.linked (k := 7 + 8 * k) (by omega)
    obtain ⟨gain', child, hbranch', hencstate⟩ := (hlast.below frame hframe).encstate
    rw [hbranch] at hbranch'
    cases hbranch'
    have hdepth : frame.node.length = 7 + 8 * k := by
      rw [hnode, List.length_take]
      omega
    have htake : (last.top.node.take (7 + 8 * k + 1)).length = 8 * k + 8 := by
      rw [List.length_take]
      omega
    rw [← hdepth, hencstate, byteBits_stateAfter (by omega), htake, Nat.add_sub_cancel,
      List.drop_take]
    congr 1
    omega
  refine ⟨count, last, hruns, hlast.linked, ?_, hlength, hbits, ?_⟩
  · exact (wordOf_eq hlength hnbits htail hbits).symm
  · rw [hmetric, ← hnp, hlast.gamma]

/-- Each sent symbol has a metric with the received one that is not negative, and better
than the metric of the other symbol. -/
def ReceivedWell (mettab : Nat → UInt8 → Int) (code received : List UInt8) : Prop :=
  ∀ pair ∈ code.zip received,
    0 ≤ mettab pair.1.toNat pair.2 ∧
      mettab (1 - pair.1.toNat) pair.2 < mettab pair.1.toNat pair.2

/-- The symbols of a bit are the pair that the encoder gives for the register after this bit. -/
theorem encodeBits_getD (encstate : BitVec 64) (bits : List Bool) (k : Nat)
    (hk : k < bits.length) :
    (encodeBits encstate bits).getD (2 * k) 0 =
        UInt8.ofNat (encodePair ((bits.take (k + 1)).foldl shiftIn encstate) >>> 1) ∧
      (encodeBits encstate bits).getD (2 * k + 1) 0 =
        UInt8.ofNat (encodePair ((bits.take (k + 1)).foldl shiftIn encstate) &&& 1) := by
  induction k generalizing encstate bits with
  | zero =>
      cases bits with
      | nil => exact absurd hk (Nat.lt_irrefl 0)
      | cons bit bits => exact ⟨rfl, rfl⟩
  | succ k ih =>
      cases bits with
      | nil => exact absurd hk (Nat.not_lt_zero _)
      | cons bit bits => exact ih (shiftIn encstate bit) bits (Nat.lt_of_succ_lt_succ hk)

theorem ReceivedWell.at {code received : List UInt8} (h : ReceivedWell mettab code received)
    {j : Nat} (hcode : j < code.length) (hreceived : j < received.length) :
    0 ≤ mettab (code.getD j 0).toNat (received.getD j 0) ∧
      mettab (1 - (code.getD j 0).toNat) (received.getD j 0) <
        mettab (code.getD j 0).toNat (received.getD j 0) := by
  rw [List.getD_eq_getElem _ _ hcode, List.getD_eq_getElem _ _ hreceived]
  apply h (code[j], received[j])
  rw [List.mem_iff_getElem]
  exact ⟨j, by simp; omega, by simp⟩

theorem receivedWell_of_getD {code received : List UInt8}
    (h : ∀ j < code.length, 0 ≤ mettab (code.getD j 0).toNat (received.getD j 0) ∧
      mettab (1 - (code.getD j 0).toNat) (received.getD j 0) <
        mettab (code.getD j 0).toNat (received.getD j 0)) : ReceivedWell mettab code received := by
  intro pair hpair
  obtain ⟨j, hj, rfl⟩ := List.mem_iff_getElem.mp hpair
  rw [List.length_zip] at hj
  have hpair := h j (by omega)
  rw [List.getD_eq_getElem _ _ (by omega), List.getD_eq_getElem _ _ (by omega)] at hpair
  rwa [List.getElem_zip]

theorem pair_other : ∀ sym < 4, sym >>> 1 < 256 ∧ sym &&& 1 < 256 ∧ 3 ^^^ sym < 4 ∧
    (3 ^^^ sym) >>> 1 = 1 - sym >>> 1 ∧ (3 ^^^ sym) &&& 1 = 1 - (sym &&& 1) := by
  decide

/-- Then the branch of the sent bit has a metric that is not negative and better than the
metric of the other branch. -/
theorem bitMetric_sent {bits : List Bool} (hsymbols : 2 * bits.length ≤ symbols.length)
    (h : ReceivedWell mettab (encodeBits 0 bits) symbols) {k : Nat} (hk : k < bits.length) :
    0 ≤ bitMetric symbols mettab (bits.take k) bits[k] ∧
      bitMetric symbols mettab (bits.take k) (!bits[k]) <
        bitMetric symbols mettab (bits.take k) bits[k] := by
  have hnext : bits.take (k + 1) = bits.take k ++ [bits[k]] :=
    List.take_succ_eq_append_getElem hk
  have hother : stateAfter (bits.take k ++ [!bits[k]]) =
      stateAfter (bits.take k ++ [bits[k]]) ^^^ 1 := by
    rw [stateAfter_concat, stateAfter_concat, shiftIn_flip]
  have hlength : (bits.take k).length = k := List.length_take_of_le hk.le
  obtain ⟨hfirst, hsecond⟩ := encodeBits_getD 0 bits k hk
  rw [hnext] at hfirst hsecond
  have hgood := h.at (j := 2 * k) (by simp; omega) (by omega)
  have hgood' := h.at (j := 2 * k + 1) (by simp; omega) (by omega)
  rw [hfirst] at hgood
  rw [hsecond] at hgood'
  simp only [bitMetric, metricsAt, hlength, hother, encodePair_flip]
  have hsym := encodePair_lt (stateAfter (bits.take k ++ [bits[k]]))
  simp only [stateAfter] at hsym ⊢
  generalize encodePair ((bits.take k ++ [bits[k]]).foldl shiftIn 0) = sym at *
  obtain ⟨hlow, hlow', hflip, hflip1, hflip2⟩ := pair_other sym hsym
  rw [UInt8.toNat_ofNat_of_lt' hlow] at hgood
  rw [UInt8.toNat_ofNat_of_lt' hlow'] at hgood'
  rw [branchMetrics_getD _ _ _ hsym, branchMetrics_getD _ _ _ hflip, hflip1, hflip2]
  omega

/-- Of two branches the one with the better metric comes first, and in the tail there is only
the branch of the zero. -/
theorem codeBranches_best {bits : List Bool} {bit : Bool} (hlength : bits.length < nbits)
    (htail : nbits - 31 ≤ bits.length → bit = false)
    (hbest : bitMetric symbols mettab bits (!bit) < bitMetric symbols mettab bits bit) :
    (codeBranches symbols nbits mettab bits)[0]? =
      some (bitMetric symbols mettab bits bit, bits ++ [bit]) := by
  by_cases h : nbits - 31 ≤ bits.length
  · rw [codeBranches_tail hlength h, htail h]
    rfl
  · rw [codeBranches, if_neg (not_le.mpr hlength), if_neg h]
    cases bit with
    | false =>
        rw [Bool.not_false] at hbest
        simp only [gt_iff_lt, if_pos hbest]
        rfl
    | true =>
        rw [Bool.not_true] at hbest
        simp only [gt_iff_lt, if_neg (not_lt.mpr hbest.le)]
        rfl

/-- Bytes are determined by their bits, so the decoder's data is determined by the word it
found. -/
theorem dataBits_injective {data other : List UInt8} (h : dataBits data = dataBits other) :
    data = other := by
  induction data generalizing other with
  | nil =>
      have hlength := congrArg List.length h
      rw [dataBits_length, dataBits_length] at hlength
      exact (List.eq_nil_of_length_eq_zero (by simpa using hlength.symm)).symm
  | cons byte data ih =>
      cases other with
      | nil =>
          have hlength := congrArg List.length h
          rw [dataBits_length, dataBits_length] at hlength
          simp at hlength
      | cons byte' other =>
          simp only [dataBits, List.flatMap_cons] at h
          obtain ⟨hbyte, hrest⟩ := List.append_inj h (by simp)
          have heq : byte = byte' := by
            apply UInt8.toNat_inj.mp
            apply Nat.eq_of_testBit_eq
            intro i
            by_cases hi : i < 8
            · have hbit := List.map_inj_left.mp hbyte (7 - i) (List.mem_range.mpr (by omega))
              rwa [show 7 - (7 - i) = i by omega] at hbit
            · have hpow : 2 ^ 8 ≤ 2 ^ i := Nat.pow_le_pow_right (by decide) (by omega)
              rw [Nat.testBit_lt_two_pow (byte.toNat_lt.trans_le hpow),
                Nat.testBit_lt_two_pow (byte'.toNat_lt.trans_le hpow)]
          rw [heq, ih hrest]

/-- The search goes straight along the sent word. -/
theorem runs_word {delta : Int} (hdelta : 0 < delta) (hsymbols : 2 * nbits ≤ symbols.length)
    {bits : List Bool} (hlength : bits.length = nbits)
    (htail : ∀ bit ∈ bits.drop (nbits - 31), bit = false)
    (hreceived : ReceivedWell mettab (encodeBits 0 bits) symbols) :
    ∃ last, (codeTree symbols nbits mettab).Runs delta nbits ⟨⟨[], 0, 0⟩, [], 0⟩ last ∧
      last.top.node = bits := by
  have hmetric : ∀ k (hk : k < bits.length), pathMetric symbols mettab (bits.take (k + 1)) =
      pathMetric symbols mettab (bits.take k) + bitMetric symbols mettab (bits.take k) bits[k] := by
    intro k hk
    rw [List.take_succ_eq_append_getElem hk, pathMetric_concat]
  have hheight : ∀ k < nbits, 0 < (codeTree symbols nbits mettab).height (bits.take k) := by
    intro k hk
    simp only [codeTree, List.length_take]
    omega
  have hbest : ∀ k < nbits, ((codeTree symbols nbits mettab).branches (bits.take k))[0]? =
      some (pathMetric symbols mettab (bits.take (k + 1)) -
        pathMetric symbols mettab (bits.take k), bits.take (k + 1)) := by
    intro k hk
    have hindex : k < bits.length := hk.trans_eq hlength.symm
    have htaken : (bits.take k).length = k := List.length_take_of_le hindex.le
    rw [hmetric k hindex, add_sub_cancel_left, List.take_succ_eq_append_getElem hindex]
    apply codeBranches_best
    · rwa [htaken]
    · intro hdepth
      rw [htaken] at hdepth
      exact bit_of_tail htail hindex hdepth
    · exact (bitMetric_sent (by omega) hreceived hindex).2
  have hrises : ∀ k < nbits, pathMetric symbols mettab (bits.take k) ≤
      pathMetric symbols mettab (bits.take (k + 1)) := by
    intro k hk
    have hindex : k < bits.length := hk.trans_eq hlength.symm
    have hgood := (bitMetric_sent (by omega) hreceived hindex).1
    rw [hmetric k hindex]
    omega
  obtain ⟨last, hruns, htop, -⟩ :=
    (codeTree symbols nbits mettab).runs_best hdelta (le_refl 0) hheight hbest hrises
  refine ⟨last, hruns, ?_⟩
  rw [htop]
  exact List.take_of_length_le hlength.le

/-- **Well received data is decoded.** When each code symbol of some data is received on
the right side, the decoder goes straight forward and returns this data. -/
theorem fano_receivedWell (heap : Nat → FanoNode) {delta : Int} {maxcycles : Nat}
    (hnbits : 31 < nbits) (hdelta : 0 < delta) (hsymbols : 2 * nbits ≤ symbols.length)
    {data : List UInt8} (hdata : data.length = nbits / 8)
    (htail : ∀ bit ∈ (dataBits data).drop (nbits - 31), bit = false)
    (hreceived : ReceivedWell mettab (codeOf data nbits) symbols)
    (hcycles : nbits < maxcycles * nbits % 2 ^ 32) :
    (fano heap symbols nbits mettab delta maxcycles).result = 0 ∧
      (fano heap symbols nbits mettab delta maxcycles).data = data ∧
      (fano heap symbols nbits mettab delta maxcycles).cycles = nbits + 1 := by
  have hlength := wordOf_length hdata
  have hcode : codeOf data nbits = encodeBits 0 (wordOf data nbits) := by
    rw [codeOf_eq le_rfl, List.take_of_length_le hlength.le]
  rw [hcode] at hreceived
  obtain ⟨found, hfound, htop⟩ := runs_word hdelta hsymbols hlength (wordOf_tail htail) hreceived
  have hgoal : (codeTree symbols nbits mettab).height found.top.node = 0 := by
    simp only [codeTree, htop, hlength, Nat.sub_self]
  obtain ⟨hzero, hcount⟩ := fano_of_runs heap hnbits hdelta hfound hgoal maxcycles
  have hresult := hzero.mpr hcycles
  refine ⟨hresult, ?_, hcount hresult⟩
  obtain ⟨count, last, hruns, hlinked, hword, hlast, hbits, -⟩ := fano_found hnbits hdelta hresult
  have hend : (codeTree symbols nbits mettab).height last.top.node = 0 := by
    simp only [codeTree, hlast, Nat.sub_self]
  obtain ⟨-, rfl⟩ := hruns.unique hend hfound hgoal
  apply dataBits_injective
  rw [hbits, htop, wordOf, List.take_take, dataBits_append, Nat.min_eq_left (by omega),
    List.take_append_of_le_length (by rw [dataBits_length]; omega),
    List.take_of_length_le (by rw [dataBits_length]; omega)]

/-- The metric of a symbol that is known for sure -/
def hardMetric (sent : Nat) (got : UInt8) : Int := if got.toNat = sent then 1 else -1

theorem receivedWell_hard (code : List UInt8) : ReceivedWell hardMetric code code := by
  apply receivedWell_of_getD
  intro j _
  have hother : ¬ (code.getD j 0).toNat = 1 - (code.getD j 0).toNat := by omega
  simp only [hardMetric, if_true, if_neg hother]
  decide

/-- The code symbols of ten zero bytes -/
def zeroSymbols : List UInt8 := codeOf (List.replicate 10 0) 81

/-- Nodes of zeros -/
def clearedHeap : Nat → FanoNode := fun _ => ⟨0, 0, [], (0, 0), 0⟩

theorem zeroSymbols_found : (fano clearedHeap zeroSymbols 81 hardMetric 60 10000).result = 0 :=
  (fano_receivedWell clearedHeap (by decide) (by decide) (by decide +kernel) rfl
    (by decide +kernel) (receivedWell_hard zeroSymbols) (by decide)).1

/-- **The decoder reports the metric of a codeword.** When it returns zero, the data has a
zero tail, and the metric is the correlation of the received symbols with the code symbols
that the encoder makes of the data. The decoder has its nodes here: where `malloc` fails, it
returns zero without any data. -/
theorem fano_sound {heap : Nat → FanoNode} {delta : Int} {maxcycles : Nat} (hnbits : 31 < nbits)
    (hdelta : 0 < delta) (hsymbols : 2 * nbits ≤ symbols.length)
    (h : (fano heap symbols nbits mettab delta maxcycles).result = 0) :
    (fano heap symbols nbits mettab delta maxcycles).metric =
        (correlation mettab (codeOf (fano heap symbols nbits mettab delta maxcycles).data nbits)
          symbols % 2 ^ 32).toNat ∧
      ∀ bit ∈ (dataBits (fano heap symbols nbits mettab delta maxcycles).data).drop (nbits - 31),
        bit = false := by
  obtain ⟨count, last, -, hlinked, hword, hlength, hbits, hmetric⟩ := fano_found hnbits hdelta h
  obtain ⟨hpath, -, htail⟩ := linked_metric hlinked
  constructor
  · rw [hmetric, hpath, codeOf_eq le_rfl, List.take_of_length_le (by rw [← hword]; omega), ← hword,
      pathMetric_eq_correlation (by omega)]
  · intro bit hbit
    rw [hbits, List.drop_take] at hbit
    exact htail bit (List.mem_of_mem_take hbit)

/-- The zero symbols are decoded within 10000 cycles a bit. -/
theorem zeroSymbols_sound :
    (fano clearedHeap zeroSymbols 81 hardMetric 60 10000).metric =
        (correlation hardMetric
          (codeOf (fano clearedHeap zeroSymbols 81 hardMetric 60 10000).data 81)
          zeroSymbols % 2 ^ 32).toNat ∧
      ∀ bit ∈ (dataBits (fano clearedHeap zeroSymbols 81 hardMetric 60 10000).data).drop
          (81 - 31), bit = false :=
  fano_sound (by decide) (by decide) (by decide +kernel) (zeroSymbols_found)

/-- **No codeword is much better.** When the decoder returns zero, then for any other data
with a zero tail the lowest metric on the path of its code, over all the numbers of bits,
is less than a threshold step above the lowest metric on the path that was decoded. The
threshold and the metrics are integers without a bound here; `FanoSafety` says for which
tables and limits they are the `int`s of the source. -/
theorem fano_near_best {heap : Nat → FanoNode} {delta : Int} {maxcycles : Nat}
    (hnbits : 31 < nbits) (hdelta : 0 < delta) (hsymbols : 2 * nbits ≤ symbols.length)
    (h : (fano heap symbols nbits mettab delta maxcycles).result = 0) {other : List UInt8}
    (hother : other.length = nbits / 8)
    (htail : ∀ bit ∈ (dataBits other).drop (nbits - 31), bit = false) {lowest : Int}
    (hlowest : ∀ k ≤ nbits, lowest ≤ correlation mettab (codeOf other k) symbols) :
    ∀ k ≤ nbits, lowest - delta <
      correlation mettab (codeOf (fano heap symbols nbits mettab delta maxcycles).data k)
        symbols := by
  obtain ⟨count, last, hruns, hlinked, hword, hlength, -, -⟩ := fano_found hnbits hdelta h
  obtain ⟨count', last', hruns', hgoal', hbest⟩ :=
    (codeTree symbols nbits mettab).exists_found hdelta []
  have hgoal : (codeTree symbols nbits mettab).height last.top.node = 0 := by
    simp only [codeTree, hlength, Nat.sub_self]
  obtain ⟨-, rfl⟩ := hruns.unique hgoal hruns' hgoal'
  have hpath : ∀ {data : List UInt8} {k : Nat}, k ≤ nbits →
      pathMetric symbols mettab ((wordOf data nbits).take k) =
        correlation mettab (codeOf data k) symbols := by
    intro data k hk
    rw [codeOf_eq hk]
    apply pathMetric_eq_correlation
    rw [List.length_take]
    omega
  have hkeeps : (codeTree symbols nbits mettab).Keeps lowest [] 0 :=
    keeps_of_word (wordOf_length hother) (wordOf_tail htail)
      (fun k hk => (hlowest k hk).trans_eq (hpath hk).symm) nbits 0 (Nat.zero_add _)
  intro k hk
  obtain ⟨frame, hframe, hnode⟩ : ∃ frame ∈ last.top :: last.below,
      frame.node = last.top.node.take k := by
    obtain hlt | rfl := Nat.lt_or_eq_of_le hk
    · obtain ⟨frame, hframe, gain, hnode, -⟩ := linked_frame hlinked (hlt.trans_eq hlength.symm)
      exact ⟨frame, List.mem_cons_of_mem _ hframe, hnode⟩
    · exact ⟨last.top, List.mem_cons_self, by rw [List.take_of_length_le (by omega)]⟩
  have hmetric := linked_metrics hlinked frame hframe
  rw [hnode, hword, hpath hk] at hmetric
  rw [← hmetric]
  exact hbest lowest hkeeps frame hframe

/-- The zero data, whose path never falls below 0, against the data decoded from the zero
symbols. -/
theorem zeroSymbols_near_best : 0 - 60 <
    correlation hardMetric (codeOf (fano clearedHeap zeroSymbols 81 hardMetric 60 10000).data 81)
      zeroSymbols :=
  fano_near_best (by decide) (by decide) (by decide +kernel) zeroSymbols_found
    (show (List.replicate 10 0).length = 81 / 8 from rfl) (by decide +kernel) (by decide +kernel)
    81 le_rfl

/-- **The decoder ends.** For any received symbols there is a number of cycles in which the
loop gets to the end of a path, and with any fewer it does not; the decoder returns zero
exactly when its limit is above this number. -/
theorem fano_terminates (heap : Nat → FanoNode) {delta : Int} (hnbits : 31 < nbits)
    (hdelta : 0 < delta) :
    ∃ enough,
      (∀ left, (fanoLoop nbits delta left 1 (fanoStart heap symbols nbits mettab)).2.np = nbits ↔
        enough ≤ left) ∧
      ∀ maxcycles, (fano heap symbols nbits mettab delta maxcycles).result = 0 ↔
        enough < maxcycles * nbits % 2 ^ 32 := by
  obtain ⟨enough, found, hfound, hgoal, -⟩ :=
    (codeTree symbols nbits mettab).exists_found hdelta []
  refine ⟨enough, fun left => ?_, fun maxcycles => ?_⟩
  · obtain ⟨hleft, hnp, -⟩ | ⟨hleft, hnp, -⟩ :=
      fanoLoop_of_runs heap hnbits hdelta hfound hgoal left
    · exact ⟨fun _ => hleft, fun _ => hnp⟩
    · exact ⟨fun h => absurd h hnp.ne, fun h => absurd h hleft.not_ge⟩
  · exact (fano_of_runs heap hnbits hdelta hfound hgoal maxcycles).1

/-- 810000 cycles are more than enough for the zero symbols. -/
theorem zeroSymbols_terminates :
    (fanoLoop 81 60 810000 1 (fanoStart clearedHeap zeroSymbols 81 hardMetric)).2.np = 81 := by
  have hends : ∃ enough,
      (∀ left, (fanoLoop 81 60 left 1 (fanoStart clearedHeap zeroSymbols 81 hardMetric)).2.np = 81 ↔
        enough ≤ left) ∧
      ∀ maxcycles, (fano clearedHeap zeroSymbols 81 hardMetric 60 maxcycles).result = 0 ↔
        enough < maxcycles * 81 % 2 ^ 32 := fano_terminates clearedHeap (by decide) (by decide)
  obtain ⟨enough, hloop, hresult⟩ := hends
  have hless := (hresult 10000).mp zeroSymbols_found
  exact (hloop 810000).mpr (by omega)

end

end AirspyhfWsprd.Wspr
