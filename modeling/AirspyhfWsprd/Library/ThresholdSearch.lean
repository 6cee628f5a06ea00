import Mathlib.Data.List.Basic
import Mathlib.Tactic.Linarith

/-!
Search of a finite tree under a threshold. The branches of a node carry gains and
are tried best first; the metric of a node is the sum of the gains on the path to
it. The search moves forward while the metric of the next node does not fall below
the threshold, else it moves back to the nearest untried branch of the path, and it
lowers the threshold where it cannot move back. The threshold is raised again when a
node is entered for the first time.

The search needs no memory of the nodes it gave up. It still ends at a goal, and the
lowest metric on the path it finds is within one step of the threshold of the best
lowest metric of any path.
-/

namespace AirspyhfWsprd.Library

/-- A finite tree, the best branch of a node first. The nodes of height zero are
the goals. -/
structure SearchTree (ν : Type*) where
  branches : ν → List (Int × ν)
  height : ν → Nat
  height_branch : ∀ {node branch}, branch ∈ branches node → height node = height branch.2 + 1
  branches_ne_nil : ∀ {node}, 0 < height node → branches node ≠ []
  best_first : ∀ node, (branches node).Pairwise fun first second => second.1 ≤ first.1

/-- A node on the current path, its metric and the branch being tried. -/
structure Frame (ν : Type*) where
  node : ν
  metric : Int
  branch : Nat

/-- The current path, its last node apart, and the threshold. -/
structure ThresholdSearch (ν : Type*) where
  top : Frame ν
  below : List (Frame ν)
  threshold : Int

variable {ν : Type*}

/-- The threshold behind a step forward. A node is entered for the first time where the
metric before it would not keep the next threshold; then the threshold is raised to the
highest one, in steps of `delta`, that the metric of the node keeps. -/
def tightened (delta previous metric threshold : Int) : Int :=
  if previous < threshold + delta then threshold + delta * ((metric - threshold) / delta)
  else threshold

namespace SearchTree

variable (tree : SearchTree ν) (delta : Int)

/-- Moving back: to the next branch of the last node that keeps the threshold and has
one, or nowhere, and then the threshold is lowered and the branches are tried anew. -/
def back (threshold : Int) (top : Frame ν) : List (Frame ν) → ThresholdSearch ν
  | [] => ⟨{ top with branch := 0 }, [], threshold - delta⟩
  | previous :: below =>
      if previous.metric < threshold then
        ⟨{ top with branch := 0 }, previous :: below, threshold - delta⟩
      else if previous.branch + 1 < (tree.branches previous.node).length then
        ⟨{ previous with branch := previous.branch + 1 }, below, threshold⟩
      else back threshold previous below

def step (search : ThresholdSearch ν) : ThresholdSearch ν :=
  match (tree.branches search.top.node)[search.top.branch]? with
  | some (gain, child) =>
      let metric := search.top.metric + gain
      if search.threshold ≤ metric then
        ⟨⟨child, metric, 0⟩, search.top :: search.below,
          tightened delta search.top.metric metric search.threshold⟩
      else tree.back delta search.threshold search.top search.below
  | none => tree.back delta search.threshold search.top search.below

/-- A number of steps, each from a node that is no goal. -/
inductive Runs : Nat → ThresholdSearch ν → ThresholdSearch ν → Prop where
  | refl (search : ThresholdSearch ν) : Runs 0 search search
  | step {count : Nat} {search last : ThresholdSearch ν} : 0 < tree.height search.top.node →
      Runs count (tree.step delta search) last → Runs (count + 1) search last

/-- Some path to a goal from this node on, entered with this metric, stays at or above
the threshold. -/
inductive Keeps (threshold : Int) : ν → Int → Prop where
  | goal {node : ν} {metric : Int} : tree.height node = 0 → threshold ≤ metric →
      Keeps threshold node metric
  | branch {node child : ν} {metric gain : Int} : threshold ≤ metric →
      (gain, child) ∈ tree.branches node → Keeps threshold child (metric + gain) →
      Keeps threshold node metric

/-- The frames are a path from the root on, and the metrics the sums of its gains. -/
def Linked (root : ν) (top : Frame ν) : List (Frame ν) → Prop
  | [] => top.node = root ∧ top.metric = 0
  | previous :: below =>
      (tree.branches previous.node)[previous.branch]? =
          some (top.metric - previous.metric, top.node) ∧
        Linked root previous below

variable {tree delta}

theorem le_tightened (hdelta : 0 < delta) (previous : Int) {metric threshold : Int}
    (h : threshold ≤ metric) : threshold ≤ tightened delta previous metric threshold := by
  have hquotient : 0 ≤ (metric - threshold) / delta := Int.ediv_nonneg (by omega) hdelta.le
  have hproduct := Int.mul_nonneg hdelta.le hquotient
  simp only [tightened]
  split <;> omega

theorem tightened_le (hdelta : 0 < delta) (previous : Int) {metric threshold : Int}
    (h : threshold ≤ metric) : tightened delta previous metric threshold ≤ metric := by
  have hproduct := Int.mul_ediv_self_le (x := metric - threshold) (k := delta) hdelta.ne'
  simp only [tightened]
  split <;> omega

theorem dvd_tightened_sub (delta previous metric threshold : Int) :
    delta ∣ tightened delta previous metric threshold - threshold := by
  simp only [tightened]
  split
  · exact Dvd.intro ((metric - threshold) / delta) (by omega)
  · rw [Int.sub_self]
    exact Int.dvd_zero _

theorem lt_of_lt_tightened {previous metric threshold : Int}
    (h : threshold < tightened delta previous metric threshold) : previous < threshold + delta := by
  by_contra hvisited
  rw [tightened, if_neg hvisited] at h
  exact lt_irrefl _ h

theorem Keeps.le {threshold metric : Int} {node : ν} (h : tree.Keeps threshold node metric) :
    threshold ≤ metric := by
  cases h with
  | goal _ hle => exact hle
  | branch hle _ _ => exact hle

theorem Keeps.mono {threshold lower metric : Int} {node : ν} (hlower : lower ≤ threshold)
    (h : tree.Keeps threshold node metric) : tree.Keeps lower node metric := by
  induction h with
  | goal hgoal hle => exact .goal hgoal (hlower.trans hle)
  | branch hle hbranch _ ih => exact .branch (hlower.trans hle) hbranch ih

/-- Some threshold is low enough for a path from any node on. -/
theorem exists_keeps (node : ν) (metric : Int) : ∃ threshold, tree.Keeps threshold node metric := by
  generalize hheight : tree.height node = height
  induction height generalizing node metric with
  | zero => exact ⟨metric, .goal hheight le_rfl⟩
  | succ height ih =>
      have hpositive : 0 < tree.height node := by omega
      obtain ⟨⟨gain, child⟩, hbranch⟩ :=
        List.exists_mem_of_ne_nil _ (tree.branches_ne_nil hpositive)
      have hchild : tree.height child = height := by
        have hstep := tree.height_branch hbranch
        simp only at hstep
        omega
      obtain ⟨threshold, hkeeps⟩ := ih child (metric + gain) hchild
      exact ⟨min threshold metric, .branch (min_le_right _ _) hbranch
        (hkeeps.mono (min_le_left _ _))⟩

theorem Runs.trans {first second : Nat} {start middle last : ThresholdSearch ν}
    (h : tree.Runs delta first start middle) (h' : tree.Runs delta second middle last) :
    tree.Runs delta (first + second) start last := by
  induction h with
  | refl => rwa [Nat.zero_add]
  | step hheight _ ih =>
      rw [Nat.add_right_comm]
      exact .step hheight (ih h')

theorem Runs.snoc {count : Nat} {start last : ThresholdSearch ν}
    (h : tree.Runs delta count start last) (hheight : 0 < tree.height last.top.node) :
    tree.Runs delta (count + 1) start (tree.step delta last) :=
  h.trans (.step hheight (.refl _))

/-- A search reaches at most one goal. -/
theorem Runs.unique {first second : Nat} {start last last' : ThresholdSearch ν}
    (h : tree.Runs delta first start last) (hgoal : tree.height last.top.node = 0)
    (h' : tree.Runs delta second start last') (hgoal' : tree.height last'.top.node = 0) :
    first = second ∧ last = last' := by
  induction h generalizing second with
  | refl =>
      cases h' with
      | refl => exact ⟨rfl, rfl⟩
      | step hheight _ => omega
  | step hheight _ ih =>
      cases h' with
      | refl => omega
      | step _ hrest' =>
          obtain ⟨hcount, hlast⟩ := ih hgoal hrest'
          exact ⟨by omega, hlast⟩

/-- No run is longer than one to a goal. -/
theorem Runs.le_of_goal {first second : Nat} {start last goal : ThresholdSearch ν}
    (h : tree.Runs delta first start last) (h' : tree.Runs delta second start goal)
    (hgoal : tree.height goal.top.node = 0) : first ≤ second := by
  induction h generalizing second with
  | refl => exact Nat.zero_le _
  | step hheight _ ih =>
      cases h' with
      | refl => omega
      | step _ hrest' => exact Nat.succ_le_succ (ih hrest')

theorem Linked.of_top {root : ν} {top top' : Frame ν} {below : List (Frame ν)}
    (h : tree.Linked root top below) (hnode : top'.node = top.node)
    (hmetric : top'.metric = top.metric) : tree.Linked root top' below := by
  cases below with
  | nil => exact ⟨hnode.trans h.1, hmetric.trans h.2⟩
  | cons previous below =>
      refine ⟨?_, h.2⟩
      rw [hnode, hmetric]
      exact h.1

/-- Moving back keeps the metric of the last node at or above the threshold, and lowers the
threshold by one step at most. -/
theorem back_threshold (hdelta : 0 < delta) {top : Frame ν} {threshold : Int}
    (h : threshold ≤ top.metric) (below : List (Frame ν)) :
    (tree.back delta threshold top below).threshold ≤
        (tree.back delta threshold top below).top.metric ∧
      threshold - delta ≤ (tree.back delta threshold top below).threshold := by
  induction below generalizing top with
  | nil =>
      simp only [back]
      omega
  | cons previous below ih =>
      simp only [back]
      split
      · simp only
        omega
      · split
        · simp only
          omega
        · exact ih (by omega)

/-- The metric of the current node keeps the threshold, and a step lowers the threshold
by `delta` at most. -/
theorem step_threshold (hdelta : 0 < delta) (search : ThresholdSearch ν)
    (h : search.threshold ≤ search.top.metric) :
    (tree.step delta search).threshold ≤ (tree.step delta search).top.metric ∧
      search.threshold - delta ≤ (tree.step delta search).threshold := by
  simp only [step]
  split
  · next gain child _ =>
      split
      · next hforward =>
          have htightened := le_tightened hdelta search.top.metric hforward
          refine ⟨tightened_le hdelta _ hforward, ?_⟩
          simp only
          omega
      · exact back_threshold hdelta h _
  · exact back_threshold hdelta h _

theorem Runs.threshold (hdelta : 0 < delta) {count : Nat} {start last : ThresholdSearch ν}
    (h : tree.Runs delta count start last) (hstart : start.threshold ≤ start.top.metric) :
    last.threshold ≤ last.top.metric ∧ start.threshold - delta * count ≤ last.threshold := by
  induction h with
  | refl => exact ⟨hstart, by simp⟩
  | step _ _ ih =>
      obtain ⟨hkept, hlowered⟩ := step_threshold hdelta _ hstart
      obtain ⟨hlast, htotal⟩ := ih hkept
      refine ⟨hlast, ?_⟩
      rw [Nat.cast_succ, mul_add, mul_one]
      omega

theorem step_forward {threshold metric gain : Int} {node child : ν} {branch : Nat}
    {below : List (Frame ν)} (hbranch : (tree.branches node)[branch]? = some (gain, child))
    (hforward : threshold ≤ metric + gain) :
    tree.step delta ⟨⟨node, metric, branch⟩, below, threshold⟩ =
      ⟨⟨child, metric + gain, 0⟩, ⟨node, metric, branch⟩ :: below,
        tightened delta metric (metric + gain) threshold⟩ := by
  simp only [step, hbranch, if_pos hforward]

theorem step_back {search : ThresholdSearch ν} {gain : Int} {child : ν}
    (hbranch : (tree.branches search.top.node)[search.top.branch]? = some (gain, child))
    (hback : search.top.metric + gain < search.threshold) :
    tree.step delta search = tree.back delta search.threshold search.top search.below := by
  simp only [step, hbranch, if_neg (not_le.mpr hback)]

/-- Searching from a node on either ends at a goal on a path that keeps the threshold, or
the search moves back from the node with this threshold because no such path exists. -/
def Settles (tree : SearchTree ν) (delta threshold : Int) (node : ν) (metric : Int)
    (below : List (Frame ν)) (failed : Prop) (search : ThresholdSearch ν) : Prop :=
  (∃ count last passed, tree.Runs delta count search last ∧ tree.height last.top.node = 0 ∧
      last.top :: last.below = passed ++ below ∧ ∀ frame ∈ passed, threshold ≤ frame.metric) ∨
    failed ∧ ∃ count last branch, tree.Runs delta count search last ∧
      0 < tree.height last.top.node ∧
      tree.step delta last = tree.back delta threshold ⟨node, metric, branch⟩ below

theorem Settles.of_runs {threshold metric : Int} {node : ν} {below : List (Frame ν)}
    {failed : Prop} {count : Nat} {search next : ThresholdSearch ν}
    (hruns : tree.Runs delta count search next)
    (h : tree.Settles delta threshold node metric below failed next) :
    tree.Settles delta threshold node metric below failed search := by
  obtain ⟨count', last, passed, hrest, hfound⟩ | ⟨hfailed, count', last, branch, hrest, hback⟩ := h
  · exact .inl ⟨_, last, passed, hruns.trans hrest, hfound⟩
  · exact .inr ⟨hfailed, _, last, branch, hruns.trans hrest, hback⟩

/-- No branch of the node from this one on leads to a goal with the threshold kept. -/
def NoneKeeps (tree : SearchTree ν) (threshold : Int) (node : ν) (metric : Int)
    (branch : Nat) : Prop :=
  ∀ next ∈ (tree.branches node).drop branch,
    ¬ tree.Keeps threshold next.2 (metric + next.1)

/-- A branch below the threshold is on no path that keeps the threshold, and neither are the
branches behind it, as the gains are sorted. -/
theorem noneKeeps_of_lt {threshold metric gain : Int} {node child : ν} {branch : Nat}
    (hbranch : (tree.branches node)[branch]? = some (gain, child))
    (hlt : metric + gain < threshold) : tree.NoneKeeps threshold node metric branch := by
  intro next hnext hkeeps
  obtain ⟨hindex, hget⟩ := List.getElem?_eq_some_iff.mp hbranch
  have hsorted := (tree.best_first node).sublist (List.drop_sublist branch _)
  rw [List.drop_eq_getElem_cons hindex, hget] at hsorted hnext
  have hle : next.1 ≤ gain := by
    obtain rfl | htail := List.mem_cons.mp hnext
    · exact le_rfl
    · exact (List.pairwise_cons.mp hsorted).1 next htail
  have hkept := hkeeps.le
  omega

theorem noneKeeps_succ {threshold metric gain : Int} {node child : ν} {branch : Nat}
    (hbranch : (tree.branches node)[branch]? = some (gain, child))
    (hchild : ¬ tree.Keeps threshold child (metric + gain))
    (hrest : tree.NoneKeeps threshold node metric (branch + 1)) :
    tree.NoneKeeps threshold node metric branch := by
  intro next hnext
  obtain ⟨hindex, hget⟩ := List.getElem?_eq_some_iff.mp hbranch
  rw [List.drop_eq_getElem_cons hindex, hget] at hnext
  obtain rfl | htail := List.mem_cons.mp hnext
  · exact hchild
  · exact hrest next htail

/-- What searching from a child on settles about the branch that leads to it: the search
goes on with the next branch, or moves back from the node behind the last one. -/
theorem settles_branch {threshold metric gain : Int} {node child : ν} {branch : Nat}
    {below : List (Frame ν)} (hdelta : 0 < delta) (hmetric : threshold ≤ metric)
    (hbranch : (tree.branches node)[branch]? = some (gain, child))
    (hchild : ∀ threshold', threshold ≤ threshold' → threshold' ≤ metric + gain →
      delta ∣ threshold' - threshold →
      (threshold < threshold' → metric < threshold + delta) →
      tree.Settles delta threshold child (metric + gain) (⟨node, metric, branch⟩ :: below)
        (¬ tree.Keeps threshold child (metric + gain))
        ⟨⟨child, metric + gain, 0⟩, ⟨node, metric, branch⟩ :: below, threshold'⟩)
    (hnext : branch + 1 < (tree.branches node).length →
      tree.Settles delta threshold node metric below
        (tree.NoneKeeps threshold node metric (branch + 1))
        ⟨⟨node, metric, branch + 1⟩, below, threshold⟩) :
    tree.Settles delta threshold node metric below (tree.NoneKeeps threshold node metric branch)
      ⟨⟨node, metric, branch⟩, below, threshold⟩ := by
  have hheight : 0 < tree.height node := by
    rw [tree.height_branch (List.mem_of_getElem? hbranch)]
    exact Nat.succ_pos _
  by_cases hforward : threshold ≤ metric + gain
  · have hrun : tree.Runs delta 1 ⟨⟨node, metric, branch⟩, below, threshold⟩
        (tree.step delta ⟨⟨node, metric, branch⟩, below, threshold⟩) := .step hheight (.refl _)
    rw [step_forward hbranch hforward] at hrun
    apply Settles.of_runs hrun
    have hsettled := hchild _ (le_tightened hdelta metric hforward)
      (tightened_le hdelta metric hforward) (dvd_tightened_sub _ _ _ _) lt_of_lt_tightened
    obtain ⟨count, last, passed, hruns, hgoal, hpath, hpassed⟩ |
      ⟨hfailed, count, last, branch', hruns, hlast, hback⟩ := hsettled
    · refine .inl ⟨count, last, passed ++ [⟨node, metric, branch⟩], hruns, hgoal, ?_, ?_⟩
      · rw [hpath, List.append_assoc, List.singleton_append]
      · intro frame hframe
        obtain hframe | hframe := List.mem_append.mp hframe
        · exact hpassed frame hframe
        · rw [List.mem_singleton.mp hframe]
          exact hmetric
    · rw [back, if_neg (by simp only; omega)] at hback
      split at hback
      · next hmore =>
          have hresume := hruns.snoc hlast
          rw [hback] at hresume
          apply Settles.of_runs hresume
          obtain hfound | ⟨hrest, hmoved⟩ := hnext hmore
          · exact .inl hfound
          · exact .inr ⟨noneKeeps_succ hbranch hfailed hrest, hmoved⟩
      · next hmore =>
          refine .inr ⟨noneKeeps_succ hbranch hfailed ?_, count, last, branch, hruns, hlast, hback⟩
          intro next hnext
          rw [List.drop_of_length_le (Nat.le_of_not_lt hmore)] at hnext
          exact absurd hnext List.not_mem_nil
  · refine .inr ⟨noneKeeps_of_lt hbranch (by omega), 0, _, branch, .refl _, hheight, ?_⟩
    exact step_back hbranch (by simp only; omega)

/-- With the threshold as high as it may be at the node, the search settles it with the
threshold lowered to the one the node was entered with: as long as it is higher, the
metric before the node is below it, so the search cannot move back. -/
theorem settles_lowered {threshold metric : Int} {node : ν} {below : List (Frame ν)}
    (hdelta : 0 < delta) (hheight : 0 < tree.height node)
    (htried : ∀ threshold', threshold ≤ threshold' → threshold' ≤ metric →
      tree.Settles delta threshold' node metric below (tree.NoneKeeps threshold' node metric 0)
        ⟨⟨node, metric, 0⟩, below, threshold'⟩)
    (lowerings : Nat) (hmetric : threshold + delta * lowerings ≤ metric)
    (hbelow : 0 < lowerings → ∃ previous rest, below = previous :: rest ∧
      previous.metric < threshold + delta) :
    tree.Settles delta threshold node metric below (¬ tree.Keeps threshold node metric)
      ⟨⟨node, metric, 0⟩, below, threshold + delta * lowerings⟩ := by
  induction lowerings with
  | zero =>
      have hhere := htried threshold le_rfl (by simpa using hmetric)
      simp only [Nat.cast_zero, mul_zero, add_zero]
      obtain hfound | ⟨hnone, hmoved⟩ := hhere
      · exact .inl hfound
      · refine .inr ⟨?_, hmoved⟩
        intro hkeeps
        cases hkeeps with
        | goal hgoal _ => omega
        | branch _ hbranch hchild => exact hnone _ hbranch hchild
  | succ lowerings ih =>
      have hproduct : 0 ≤ delta * lowerings := Int.mul_nonneg hdelta.le (Int.natCast_nonneg _)
      rw [Nat.cast_succ, mul_add, mul_one] at hmetric ⊢
      obtain ⟨previous, rest, rfl, hprevious⟩ := hbelow (Nat.succ_pos _)
      obtain ⟨count, last, passed, hruns, hgoal, hpath, hpassed⟩ |
        ⟨_, count, last, branch, hruns, hlast, hback⟩ :=
          htried (threshold + (delta * lowerings + delta)) (by omega) hmetric
      · exact .inl ⟨count, last, passed, hruns, hgoal, hpath,
          fun frame hframe => le_trans (by omega) (hpassed frame hframe)⟩
      · rw [back, if_pos (by omega)] at hback
        have hresume := hruns.snoc hlast
        rw [hback] at hresume
        apply Settles.of_runs hresume
        have hlowered : threshold + (delta * lowerings + delta) - delta =
            threshold + delta * lowerings := by omega
        rw [hlowered]
        exact ih (by omega) fun _ => ⟨previous, rest, rfl, hprevious⟩

/-- Searching from any node on settles it. The induction is on the height of the node. -/
theorem settles (hdelta : 0 < delta) {threshold threshold' metric : Int} {node : ν}
    {below : List (Frame ν)} (hle : threshold ≤ threshold') (hmetric : threshold' ≤ metric)
    (hdvd : delta ∣ threshold' - threshold)
    (hbelow : threshold < threshold' → ∃ previous rest, below = previous :: rest ∧
      previous.metric < threshold + delta) :
    tree.Settles delta threshold node metric below (¬ tree.Keeps threshold node metric)
      ⟨⟨node, metric, 0⟩, below, threshold'⟩ := by
  generalize hheight : tree.height node = height
  induction height generalizing node metric below threshold threshold' with
  | zero =>
      refine .inl ⟨0, _, [⟨node, metric, 0⟩], .refl _, hheight, rfl, ?_⟩
      intro frame hframe
      rw [List.mem_singleton.mp hframe]
      exact hle.trans hmetric
  | succ height ih =>
      have hpositive : 0 < tree.height node := by omega
      have hbranch : ∀ lower, lower ≤ metric → ∀ branch, branch < (tree.branches node).length →
          (branch + 1 < (tree.branches node).length →
            tree.Settles delta lower node metric below
              (tree.NoneKeeps lower node metric (branch + 1))
              ⟨⟨node, metric, branch + 1⟩, below, lower⟩) →
          tree.Settles delta lower node metric below (tree.NoneKeeps lower node metric branch)
            ⟨⟨node, metric, branch⟩, below, lower⟩ := by
        intro lower hlower branch hlength hnext
        obtain ⟨⟨gain, child⟩, hget⟩ : ∃ next, (tree.branches node)[branch] = next := ⟨_, rfl⟩
        have hget' := List.getElem?_eq_some_iff.mpr ⟨hlength, hget⟩
        have hchild : tree.height child = height := by
          have hstep := tree.height_branch (List.mem_of_getElem? hget')
          simp only at hstep
          omega
        refine settles_branch hdelta hlower hget' ?_ hnext
        intro lower' hle' hmetric' hdvd' hfirst'
        exact ih hle' hmetric' hdvd' (fun hlt => ⟨_, below, rfl, hfirst' hlt⟩) hchild
      -- every branch from a given one on, the later ones first
      have hbranches : ∀ lower, lower ≤ metric → ∀ later branch,
          (tree.branches node).length = branch + later + 1 →
          tree.Settles delta lower node metric below (tree.NoneKeeps lower node metric branch)
            ⟨⟨node, metric, branch⟩, below, lower⟩ := by
        intro lower hlower later
        induction later with
        | zero =>
            intro branch hlength
            exact hbranch lower hlower branch (by omega) (fun hmore => by omega)
        | succ later ihlater =>
            intro branch hlength
            exact hbranch lower hlower branch (by omega)
              fun _ => ihlater (branch + 1) (by omega)
      have hlength := List.length_pos_of_ne_nil (tree.branches_ne_nil hpositive)
      obtain ⟨multiple, hmultiple⟩ := hdvd
      have hnonneg : 0 ≤ multiple := by
        by_contra hnegative
        have hproduct := Int.mul_neg_of_pos_of_neg hdelta (not_le.mp hnegative)
        omega
      lift multiple to Nat using hnonneg with lowerings
      have hsum : threshold' = threshold + delta * lowerings := by omega
      rw [hsum] at hmetric ⊢
      refine settles_lowered hdelta hpositive
        (fun lower _ hlower =>
          hbranches lower hlower ((tree.branches node).length - 1) 0 (by omega))
        lowerings hmetric fun hlowerings => ?_
      apply hbelow
      have hproduct := Int.mul_pos hdelta (Int.natCast_pos.mpr hlowerings)
      omega

/-- From the root the search finds a goal, and the threshold that its path keeps cannot be
raised by `delta` for any path. -/
theorem exists_found_of_threshold (hdelta : 0 < delta) (root : ν) {threshold : Int}
    (hthreshold : threshold ≤ 0)
    (hbest : threshold = 0 ∨ ¬ tree.Keeps (threshold + delta) root 0) :
    ∃ count last kept, tree.Runs delta count ⟨⟨root, 0, 0⟩, [], threshold⟩ last ∧
      tree.height last.top.node = 0 ∧ (∀ frame ∈ last.top :: last.below, kept ≤ frame.metric) ∧
      (kept = 0 ∨ ¬ tree.Keeps (kept + delta) root 0) := by
  obtain ⟨floor, hfloor⟩ := tree.exists_keeps root 0
  generalize hmeasure : (threshold - floor).toNat = measure
  induction measure using Nat.strong_induction_on generalizing threshold with
  | _ measure ih =>
      obtain ⟨count, last, passed, hruns, hgoal, hpath, hpassed⟩ |
        ⟨hnone, count, last, branch, hruns, hlast, hback⟩ :=
          settles hdelta (le_refl threshold) hthreshold (by simp)
            (fun hlt => absurd hlt (lt_irrefl _) : _ → ∃ previous rest, [] = previous :: rest ∧ _)
      · refine ⟨count, last, threshold, hruns, hgoal, ?_, hbest⟩
        rw [hpath, List.append_nil]
        exact hpassed
      · have habove : floor < threshold := by
          by_contra hbelow
          exact hnone (hfloor.mono (not_lt.mp hbelow))
        have hresume := hruns.snoc hlast
        rw [hback, back] at hresume
        obtain ⟨rest, found, kept, hrest, hfound⟩ :=
          ih (threshold - delta - floor).toNat (by omega) (show threshold - delta ≤ 0 by omega)
            (.inr (by rwa [Int.sub_add_cancel])) rfl
        exact ⟨_, found, kept, hresume.trans hrest, hfound⟩

/-- **The search always ends, and within `delta` of the best path.** It finds a path to a
goal with lowest metric above `lowest - delta`, for the lowest metric of any path. -/
theorem exists_found (hdelta : 0 < delta) (root : ν) :
    ∃ count last, tree.Runs delta count ⟨⟨root, 0, 0⟩, [], 0⟩ last ∧
      tree.height last.top.node = 0 ∧
      ∀ lowest, tree.Keeps lowest root 0 →
        ∀ frame ∈ last.top :: last.below, lowest - delta < frame.metric := by
  obtain ⟨count, last, kept, hruns, hgoal, hkept, hbest⟩ :=
    tree.exists_found_of_threshold hdelta root (le_refl 0) (.inl rfl)
  refine ⟨count, last, hruns, hgoal, ?_⟩
  intro lowest hlowest frame hframe
  have hframe' := hkept frame hframe
  obtain rfl | hnone := hbest
  · have hle := hlowest.le
    omega
  · have hlt : lowest < kept + delta := by
      by_contra hle
      exact hnone (hlowest.mono (not_lt.mp hle))
    omega

/-- Along a path of best branches on which the metric never falls the search does not move
back. -/
theorem runs_best (hdelta : 0 < delta) {path : Nat → ν} {metric : Nat → Int} {length : Nat}
    {threshold : Int} (hstart : threshold ≤ metric 0)
    (hheight : ∀ depth < length, 0 < tree.height (path depth))
    (hbest : ∀ depth < length, (tree.branches (path depth))[0]? =
      some (metric (depth + 1) - metric depth, path (depth + 1)))
    (hrises : ∀ depth < length, metric depth ≤ metric (depth + 1)) :
    ∃ last, tree.Runs delta length ⟨⟨path 0, metric 0, 0⟩, [], threshold⟩ last ∧
      last.top = ⟨path length, metric length, 0⟩ ∧ last.threshold ≤ metric length := by
  induction length with
  | zero => exact ⟨_, .refl _, rfl, hstart⟩
  | succ length ih =>
      obtain ⟨⟨top, below, kept⟩, hruns, rfl, hkept⟩ :=
        ih (fun depth hdepth => hheight depth (Nat.lt_succ_of_lt hdepth))
          (fun depth hdepth => hbest depth (Nat.lt_succ_of_lt hdepth))
          (fun depth hdepth => hrises depth (Nat.lt_succ_of_lt hdepth))
      have hrise := hrises length (Nat.lt_succ_self _)
      have hsum : metric length + (metric (length + 1) - metric length) = metric (length + 1) := by
        omega
      have hnext := hruns.snoc (hheight length (Nat.lt_succ_self _))
      simp only at hkept
      have hforward : kept ≤ metric length + (metric (length + 1) - metric length) := by omega
      rw [step_forward (hbest length (Nat.lt_succ_self _)) hforward, hsum] at hnext
      refine ⟨_, hnext, rfl, ?_⟩
      exact tightened_le hdelta _ (by omega)

end SearchTree

end AirspyhfWsprd.Library
