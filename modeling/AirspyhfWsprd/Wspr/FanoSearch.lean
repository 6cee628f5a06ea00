import AirspyhfWsprd.Wspr.Fano

/-!
The Fano decoder carries out the search of the code tree under a threshold, one step in
each cycle.
-/

namespace AirspyhfWsprd.Wspr

open Library

section Search

variable (symbols : List UInt8) (nbits : Nat) (mettab : Nat → UInt8 → Int)

/-- The node stands for the frame: its encoder state has the bit of the branch being tested
shifted in, and its sorted metrics are the gains of the branches. -/
structure StandsFor (node : FanoNode) (frame : Frame (List Bool)) : Prop where
  gamma : node.gamma = frame.metric
  i : node.i = frame.branch
  encstate : ∃ gain child,
    (codeBranches symbols nbits mettab frame.node)[frame.branch]? = some (gain, child) ∧
      node.encstate = stateAfter child
  tm : ∀ j gain child, (codeBranches symbols nbits mettab frame.node)[j]? = some (gain, child) →
    (if j = 0 then node.tm.1 else node.tm.2) = gain

/-- The state of the decoder stands for the state of the search: the node pointer is the depth
of the search, and each node below it has the metrics and the branch of a frame. -/
structure Represents (state : FanoState) (search : ThresholdSearch (List Bool)) : Prop where
  t : state.t = search.threshold
  np : state.np = search.top.node.length
  metrics : ∀ k < nbits, (state.nodes k).metrics = metricsAt symbols mettab k
  linked : (codeTree symbols nbits mettab).Linked [] search.top search.below
  gamma : (state.nodes state.np).gamma = search.top.metric
  top : state.np < nbits → StandsFor symbols nbits mettab (state.nodes state.np) search.top
  below : ∀ frame ∈ search.below,
    StandsFor symbols nbits mettab (state.nodes frame.node.length) frame

variable {symbols nbits mettab}

theorem StandsFor.tested {node : FanoNode} {frame : Frame (List Bool)}
    (h : StandsFor symbols nbits mettab node frame) : ∃ child,
      (codeBranches symbols nbits mettab frame.node)[frame.branch]? = some (node.tested, child) ∧
        node.encstate = stateAfter child := by
  obtain ⟨gain, child, hbranch, hencstate⟩ := h.encstate
  have hgain := h.tm _ _ _ hbranch
  rw [← h.i] at hgain
  rw [FanoNode.tested, hgain]
  exact ⟨child, hbranch, hencstate⟩

/-- A node just entered stands for its first branch. -/
theorem standsFor_first {node : FanoNode} {bits child : List Bool} {gain : Int}
    {rest : List (Int × List Bool)}
    (hbranches : codeBranches symbols nbits mettab bits = (gain, child) :: rest)
    (hi : node.i = 0) (hencstate : node.encstate = stateAfter child) (hfirst : node.tm.1 = gain)
    (hrest : ∀ other ∈ rest, node.tm.2 = other.1) :
    StandsFor symbols nbits mettab node ⟨bits, node.gamma, 0⟩ := by
  refine ⟨rfl, hi, ⟨gain, child, by rw [hbranches]; rfl, hencstate⟩, ?_⟩
  intro j gain' child' hj
  rw [hbranches] at hj
  cases j with
  | zero =>
      cases hj
      exact hfirst
  | succ j => exact hrest _ (List.mem_of_getElem? hj)

/-- The node behind a step forward, before the tail. -/
theorem standsFor_sorted {node : FanoNode} {bits : List Bool} (hbits : bits.length < nbits - 31)
    (hmetrics : node.metrics = metricsAt symbols mettab bits.length)
    (hencstate : node.encstate = stateAfter (bits ++ [false])) :
    StandsFor symbols nbits mettab node.sorted ⟨bits, node.gamma, 0⟩ := by
  have hone : stateAfter (bits ++ [false]) ^^^ 1 = stateAfter (bits ++ [true]) := by
    rw [stateAfter_concat, stateAfter_concat, shiftIn_flip, Bool.not_false]
  have hm0 : node.metrics.getD (encodePair node.encstate) 0 =
      bitMetric symbols mettab bits false := by
    rw [hmetrics, hencstate, bitMetric]
  have hm1 : node.metrics.getD (3 ^^^ encodePair node.encstate) 0 =
      bitMetric symbols mettab bits true := by
    rw [hmetrics, hencstate, ← encodePair_flip, hone, bitMetric]
  have hnext : node.encstate + 1 = stateAfter (bits ++ [true]) := by
    rw [hencstate, stateAfter_concat, stateAfter_concat, shiftIn_false_add_one]
  by_cases hbetter : bitMetric symbols mettab bits false > bitMetric symbols mettab bits true
  · have hbranches : codeBranches symbols nbits mettab bits =
        [(bitMetric symbols mettab bits false, bits ++ [false]),
          (bitMetric symbols mettab bits true, bits ++ [true])] := by
      rw [codeBranches, if_neg (by omega), if_neg (by omega), if_pos hbetter]
    simp only [FanoNode.sorted, hm0, hm1, if_pos hbetter]
    exact standsFor_first hbranches rfl hencstate rfl (by simp)
  · have hbranches : codeBranches symbols nbits mettab bits =
        [(bitMetric symbols mettab bits true, bits ++ [true]),
          (bitMetric symbols mettab bits false, bits ++ [false])] := by
      rw [codeBranches, if_neg (by omega), if_neg (by omega), if_neg hbetter]
    simp only [FanoNode.sorted, hm0, hm1, if_neg hbetter]
    exact standsFor_first hbranches rfl hnext rfl (by simp)

/-- The node behind a step forward, in the tail. -/
theorem standsFor_tailBranch {node : FanoNode} {bits : List Bool} (hlength : bits.length < nbits)
    (htail : nbits - 31 ≤ bits.length)
    (hmetrics : node.metrics = metricsAt symbols mettab bits.length)
    (hencstate : node.encstate = stateAfter (bits ++ [false])) :
    StandsFor symbols nbits mettab node.tailBranch ⟨bits, node.gamma, 0⟩ := by
  have hfirst : node.tailBranch.tm.1 = bitMetric symbols mettab bits false := by
    rw [FanoNode.tailBranch, hmetrics, hencstate, bitMetric]
  exact standsFor_first (codeBranches_tail hlength htail) rfl hencstate
    hfirst (by simp)

/-- Turning to the other of the two branches. -/
theorem StandsFor.flipped {node : FanoNode} {frame : Frame (List Bool)}
    (h : StandsFor symbols nbits mettab node frame) (hbits : frame.node.length < nbits - 31)
    {branch : Nat} (hbranch : branch + frame.branch = 1) :
    StandsFor symbols nbits mettab (node.flipped branch) { frame with branch := branch } := by
  obtain ⟨bit, hbranches⟩ := codeBranches_pair symbols mettab hbits
  obtain ⟨gain, child, hget, hencstate⟩ := h.encstate
  rw [hbranches] at hget
  have hturned : ∀ other, stateAfter (frame.node ++ [other]) ^^^ 1 =
      stateAfter (frame.node ++ [!other]) := by
    intro other
    rw [stateAfter_concat, stateAfter_concat, shiftIn_flip]
  refine ⟨h.gamma, rfl, ?_, h.tm⟩
  obtain ⟨rfl, hzero⟩ | ⟨rfl, hone⟩ : branch = 0 ∧ frame.branch = 1 ∨
      branch = 1 ∧ frame.branch = 0 := by omega
  · rw [hzero] at hget
    cases hget
    refine ⟨_, _, by rw [hbranches]; rfl, ?_⟩
    rw [FanoNode.flipped, hencstate, hturned, Bool.not_not]
  · rw [hone] at hget
    cases hget
    refine ⟨_, _, by rw [hbranches]; rfl, ?_⟩
    rw [FanoNode.flipped, hencstate, hturned]

/-- "Search next best branch": the test for an untried branch. -/
theorem StandsFor.untried {node : FanoNode} {frame : Frame (List Bool)}
    (h : StandsFor symbols nbits mettab node frame) :
    frame.branch + 1 < (codeBranches symbols nbits mettab frame.node).length ↔
      frame.node.length < nbits - 31 ∧ frame.branch ≠ 1 := by
  obtain ⟨gain, child, hget, -⟩ := h.encstate
  obtain ⟨hindex, -⟩ := List.getElem?_eq_some_iff.mp hget
  obtain ⟨hlength, -⟩ := codeBranches_of_mem (List.mem_of_getElem? hget)
  by_cases htail : nbits - 31 ≤ frame.node.length
  · rw [codeBranches_tail hlength htail, List.length_singleton] at hindex ⊢
    omega
  · obtain ⟨bit, hbranches⟩ := codeBranches_pair symbols mettab
      (not_le.mp htail)
    rw [hbranches] at hindex ⊢
    simp only [List.length_cons, List.length_nil] at hindex ⊢
    omega

/-- The second branch is tested before the tail only. -/
theorem StandsFor.branch {node : FanoNode} {frame : Frame (List Bool)}
    (h : StandsFor symbols nbits mettab node frame) :
    frame.branch = 0 ∨ frame.branch = 1 ∧ frame.node.length < nbits - 31 := by
  obtain ⟨gain, child, hget, -⟩ := h.encstate
  obtain ⟨hindex, -⟩ := List.getElem?_eq_some_iff.mp hget
  obtain ⟨hlength, -⟩ := codeBranches_of_mem (List.mem_of_getElem? hget)
  by_cases htail : nbits - 31 ≤ frame.node.length
  · rw [codeBranches_tail hlength htail, List.length_singleton] at hindex
    exact .inl (by omega)
  · obtain ⟨bit, hbranches⟩ := codeBranches_pair symbols mettab
      (not_le.mp htail)
    rw [hbranches] at hindex
    simp only [List.length_cons, List.length_nil] at hindex
    omega

/-- Along a path each node has one bit more than the one before it and continues its bits, so
the depth of a node is the number of frames below it. -/
theorem linked_nodes {top : Frame (List Bool)} {below : List (Frame (List Bool))}
    (h : (codeTree symbols nbits mettab).Linked [] top below) :
    top.node.length = below.length ∧
      ∀ frame ∈ below, frame.node.length < top.node.length ∧ frame.node <+: top.node := by
  induction below generalizing top with
  | nil =>
      rw [h.1]
      exact ⟨rfl, fun frame hframe => absurd hframe List.not_mem_nil⟩
  | cons previous below ih =>
      obtain ⟨hlength, hbelow⟩ := ih h.2
      obtain ⟨-, bit, hbit, -⟩ := codeBranches_of_mem (List.mem_of_getElem? h.1)
      obtain ⟨-, hnode⟩ := Prod.ext_iff.mp hbit
      simp only at hnode
      rw [hnode]
      refine ⟨by rw [List.length_append, hlength]; rfl, ?_⟩
      have hprevious : previous.node <+: previous.node ++ [bit] := List.prefix_append _ _
      intro frame hframe
      rw [List.length_append, List.length_singleton]
      obtain rfl | hframe := List.mem_cons.mp hframe
      · exact ⟨Nat.lt_succ_self _, hprevious⟩
      · obtain ⟨hlt, hprefix⟩ := hbelow frame hframe
        exact ⟨Nat.lt_succ_of_lt hlt, hprefix.trans hprevious⟩

/-- Writing the node of the top frame leaves the nodes of the others as they are. -/
theorem represents_update {nodes : Nat → FanoNode} {node : FanoNode} {np maxnp : Nat} {t : Int}
    {top : Frame (List Bool)} {below : List (Frame (List Bool))}
    (hmetrics : ∀ k < nbits, (nodes k).metrics = metricsAt symbols mettab k)
    (hnode : node.metrics = (nodes np).metrics)
    (hlinked : (codeTree symbols nbits mettab).Linked [] top below)
    (hnp : np = top.node.length) (hgamma : node.gamma = top.metric)
    (htop : np < nbits → StandsFor symbols nbits mettab node top)
    (hbelow : ∀ frame ∈ below, StandsFor symbols nbits mettab (nodes frame.node.length) frame) :
    Represents symbols nbits mettab ⟨Function.update nodes np node, np, t, maxnp⟩
      ⟨top, below, t⟩ := by
  refine ⟨rfl, hnp, ?_, hlinked, ?_, ?_, ?_⟩
  · intro k hk
    by_cases hhere : k = np
    · subst hhere
      simp only [Function.update_self, hnode]
      exact hmetrics k hk
    · simp only [Function.update_of_ne hhere]
      exact hmetrics k hk
  · simp only [Function.update_self]
    exact hgamma
  · intro hlt
    simp only [Function.update_self]
    exact htop hlt
  · intro frame hframe
    have hlt := ((linked_nodes hlinked).2 frame hframe).1
    simp only [Function.update_of_ne (show frame.node.length ≠ np by omega)]
    exact hbelow frame hframe

/-- Where the decoder cannot move back it lowers the threshold and turns to the better branch
of its node again, as the search does. -/
theorem represents_relax {nodes : Nat → FanoNode} {np maxnp : Nat} {t delta : Int}
    {top : Frame (List Bool)} {below : List (Frame (List Bool))}
    (h : Represents symbols nbits mettab ⟨nodes, np, t, maxnp⟩ ⟨top, below, t⟩)
    (hnp : np < nbits) :
    Represents symbols nbits mettab (relax delta ⟨nodes, np, t, maxnp⟩)
      ⟨{ top with branch := 0 }, below, t - delta⟩ := by
  have htop := h.top hnp
  have hlinked : (codeTree symbols nbits mettab).Linked [] { top with branch := 0 } below :=
    h.linked.of_top rfl rfl
  simp only [relax]
  by_cases hi : (nodes np).i = 0
  · have hbranch : top.branch = 0 := htop.i.symm.trans hi
    rw [if_neg (not_not.mpr hi)]
    refine ⟨rfl, h.np, h.metrics, hlinked, h.gamma, ?_, h.below⟩
    intro _
    rw [← hbranch]
    exact htop
  · obtain hzero | ⟨hone, hbits⟩ := htop.branch
    · exact absurd (htop.i.trans hzero) hi
    · rw [if_pos hi]
      refine represents_update h.metrics rfl hlinked h.np h.gamma ?_ h.below
      intro _
      exact htop.flipped hbits (by omega)

/-- The loop that moves back goes down the frames of the path one by one. It stops where the
search stops: at a node that it cannot leave, or at one with a branch left to try. -/
theorem represents_lookBack {nodes : Nat → FanoNode} {np maxnp : Nat} {t delta : Int}
    {top : Frame (List Bool)} {below : List (Frame (List Bool))}
    (h : Represents symbols nbits mettab ⟨nodes, np, t, maxnp⟩ ⟨top, below, t⟩)
    (hnp : np < nbits) :
    Represents symbols nbits mettab (lookBack nbits delta nodes t maxnp np)
      ((codeTree symbols nbits mettab).back delta t top below) := by
  induction below generalizing np top with
  | nil =>
      have hroot : np = 0 := h.np.trans (linked_nodes h.linked).1
      subst hroot
      exact represents_relax h hnp
  | cons previous below ih =>
      have hlength : np = below.length + 1 := h.np.trans (linked_nodes h.linked).1
      have hdepth : previous.node.length = below.length := (linked_nodes h.linked.2).1
      obtain ⟨np, rfl⟩ : ∃ before, np = before + 1 := ⟨_, hlength⟩
      have hdepth : np = previous.node.length := by omega
      have hprevious : StandsFor symbols nbits mettab (nodes np) previous := by
        rw [hdepth]
        exact h.below previous List.mem_cons_self
      have hbelow : ∀ frame ∈ below,
          StandsFor symbols nbits mettab (nodes frame.node.length) frame :=
        fun frame hframe => h.below frame (List.mem_cons_of_mem _ hframe)
      simp only [lookBack, SearchTree.back, hprevious.gamma]
      split
      · exact represents_relax h hnp
      · have hmore : (np < nbits - 31 ∧ (nodes np).i ≠ 1) ↔
            previous.branch + 1 <
              ((codeTree symbols nbits mettab).branches previous.node).length := by
          rw [hprevious.i, hdepth]
          exact hprevious.untried.symm
        by_cases hnext : np < nbits - 31 ∧ (nodes np).i ≠ 1
        · rw [if_pos hnext, if_pos (hmore.mp hnext)]
          have hfirst : previous.branch = 0 := by
            have hbranch := hprevious.branch
            have hi := hprevious.i
            omega
          refine represents_update h.metrics rfl (h.linked.2.of_top rfl rfl) hdepth
            hprevious.gamma ?_ hbelow
          intro _
          rw [hprevious.i, hfirst]
          exact hprevious.flipped (by omega) (by omega)
        · rw [if_neg hnext, if_neg (fun hlt => hnext (hmore.mpr hlt))]
          apply ih
          · exact ⟨rfl, hdepth, h.metrics, h.linked.2, hprevious.gamma, fun _ => hprevious, hbelow⟩
          · omega

/-- The loop that raises the threshold step by step gives the highest threshold that the metric
keeps. -/
theorem tighten_eq {delta : Int} (hdelta : 0 < delta) {ngamma t : Int} (h : t ≤ ngamma) :
    tighten delta ngamma t = t + delta * ((ngamma - t) / delta) := by
  induction t using tighten.induct delta ngamma with
  | case1 t hmore ih =>
      have hquotient : (ngamma - t) / delta = (ngamma - (t + delta)) / delta + 1 := by
        rw [← Int.add_mul_ediv_left _ _ hdelta.ne', mul_one]
        congr 1
        omega
      rw [tighten, if_pos hmore, ih hmore.2, hquotient, mul_add, mul_one]
      omega
  | case2 t hdone =>
      have hquotient : (ngamma - t) / delta = 0 :=
        Int.ediv_eq_zero_of_lt (by omega) (by omega)
      rw [tighten, if_neg hdone, hquotient, mul_zero, add_zero]

theorem entered_metrics (np : Nat) (node : FanoNode) :
    (node.entered nbits np).metrics = node.metrics := by
  simp only [FanoNode.entered, FanoNode.sorted, FanoNode.tailBranch]
  split
  · rfl
  · split
    · rfl
    · split <;> rfl

theorem entered_gamma (np : Nat) (node : FanoNode) :
    (node.entered nbits np).gamma = node.gamma := by
  simp only [FanoNode.entered, FanoNode.sorted, FanoNode.tailBranch]
  split
  · rfl
  · split
    · rfl
    · split <;> rfl

theorem standsFor_entered {node : FanoNode} {bits : List Bool} (hlength : bits.length < nbits)
    (hmetrics : node.metrics = metricsAt symbols mettab bits.length)
    (hencstate : node.encstate = stateAfter (bits ++ [false])) :
    StandsFor symbols nbits mettab (node.entered nbits bits.length) ⟨bits, node.gamma, 0⟩ := by
  rw [FanoNode.entered, if_neg hlength.ne]
  split
  · next htail => exact standsFor_tailBranch hlength htail hmetrics hencstate
  · next htail => exact standsFor_sorted (not_le.mp htail) hmetrics hencstate

/-- A step forward enters the next node, with the metric and the register of the branch, and
sorts its branches. The threshold is raised only when the node is entered for the first time,
which the decoder sees by the metric before it. -/
theorem represents_forward {state : FanoState} {search : ThresholdSearch (List Bool)}
    {delta gain : Int} {child : List Bool} (hdelta : 0 < delta)
    (h : Represents symbols nbits mettab state search) (hnp : state.np < nbits)
    (hbranch : (codeBranches symbols nbits mettab search.top.node)[search.top.branch]? =
      some (gain, child))
    (hencstate : (state.nodes state.np).encstate = stateAfter child)
    (hforward : search.threshold ≤ search.top.metric + gain) :
    Represents symbols nbits mettab (moveForward nbits delta state (search.top.metric + gain))
      ⟨⟨child, search.top.metric + gain, 0⟩, search.top :: search.below,
        tightened delta search.top.metric (search.top.metric + gain) search.threshold⟩ := by
  obtain ⟨-, bit, hbit, -⟩ := codeBranches_of_mem (List.mem_of_getElem? hbranch)
  obtain ⟨-, rfl⟩ := Prod.ext_iff.mp hbit
  have hlength : (search.top.node ++ [bit]).length = state.np + 1 := by
    rw [h.np, List.length_append, List.length_singleton]
  have hlinked : (codeTree symbols nbits mettab).Linked []
      ⟨search.top.node ++ [bit], search.top.metric + gain, 0⟩ (search.top :: search.below) := by
    refine ⟨?_, h.linked⟩
    rw [add_sub_cancel_left]
    exact hbranch
  have hbelow : ∀ frame ∈ search.top :: search.below,
      StandsFor symbols nbits mettab (state.nodes frame.node.length) frame := by
    intro frame hframe
    obtain rfl | hframe := List.mem_cons.mp hframe
    · rw [← h.np]
      exact h.top hnp
    · exact h.below frame hframe
  have hthreshold : (moveForward nbits delta state (search.top.metric + gain)).t =
      tightened delta search.top.metric (search.top.metric + gain) search.threshold := by
    simp only [moveForward, tightened, h.gamma, h.t, tighten_eq hdelta hforward]
  rw [← hthreshold]
  refine represents_update h.metrics (entered_metrics _ _) hlinked hlength.symm
    (entered_gamma _ _) ?_ hbelow
  intro hlt
  rw [← hlength] at hlt ⊢
  apply standsFor_entered hlt
  · exact h.metrics _ hlt
  · rw [stateAfter_concat, shiftIn_false, ← hencstate]

/-- Each cycle of the decoder is one step of the search. -/
theorem represents_cycle {state : FanoState} {search : ThresholdSearch (List Bool)} {delta : Int}
    (hdelta : 0 < delta) (h : Represents symbols nbits mettab state search)
    (hnp : state.np < nbits) :
    Represents symbols nbits mettab (fanoCycle nbits delta state)
      ((codeTree symbols nbits mettab).step delta search) := by
  obtain ⟨nodes, np, t, maxnp⟩ := state
  obtain ⟨top, below, threshold⟩ := search
  obtain ⟨child, hbranch, hencstate⟩ := (h.top hnp).tested
  have hgamma : (nodes np).gamma = top.metric := h.gamma
  have hthreshold : t = threshold := h.t
  subst hthreshold
  have hstep : (codeTree symbols nbits mettab).step delta ⟨top, below, t⟩ =
      if t ≤ top.metric + (nodes np).tested then
        ⟨⟨child, top.metric + (nodes np).tested, 0⟩, top :: below,
          tightened delta top.metric (top.metric + (nodes np).tested) t⟩
      else (codeTree symbols nbits mettab).back delta t top below := by
    simp only [SearchTree.step]
    rw [show (codeTree symbols nbits mettab).branches = codeBranches symbols nbits mettab from rfl,
      hbranch]
  -- the cycle counts its progress first, which the search does not see
  have hcounted : Represents symbols nbits mettab ⟨nodes, np, t, max maxnp np⟩ ⟨top, below, t⟩ :=
    ⟨rfl, h.np, h.metrics, h.linked, h.gamma, h.top, h.below⟩
  rw [hstep]
  simp only [fanoCycle, hgamma, ge_iff_le]
  split
  · next hforward => exact represents_forward hdelta hcounted hnp hbranch hencstate hforward
  · exact represents_lookBack hcounted hnp

end Search

end AirspyhfWsprd.Wspr
