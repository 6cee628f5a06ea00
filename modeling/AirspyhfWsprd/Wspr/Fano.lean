import AirspyhfWsprd.Library.ThresholdSearch
import AirspyhfWsprd.Wspr.Convolution

/-!
The Fano decoder of `fano.c`, and the tree of the code it searches. The decoder keeps one
node for each bit of the path it is testing, moves a node pointer forward and backward over
them and adjusts a threshold.
-/

namespace AirspyhfWsprd.Wspr

open Library

/-- `struct node` -/
structure FanoNode where
  encstate : BitVec 64
  gamma : Int
  metrics : List Int
  tm : Int × Int
  i : Nat

/-- `np->tm[np->i]` -/
def FanoNode.tested (node : FanoNode) : Int := if node.i = 0 then node.tm.1 else node.tm.2

/-- The node with its branches in the order of their metrics, the better one first. The
low bit of the encoder state is the bit of the branch being tested. -/
def FanoNode.sorted (node : FanoNode) : FanoNode :=
  let lsym := encodePair node.encstate
  let m0 := node.metrics.getD lsym 0
  let m1 := node.metrics.getD (3 ^^^ lsym) 0
  if m0 > m1 then { node with tm := (m0, m1), i := 0 }
  else { node with tm := (m1, m0), encstate := node.encstate + 1, i := 0 }

/-- "The tail must be all zeroes, so don't bother computing the 1-branches here." -/
def FanoNode.tailBranch (node : FanoNode) : FanoNode :=
  { node with tm := (node.metrics.getD (encodePair node.encstate) 0, node.tm.2), i := 0 }

/-- The node with its other branch being tested. -/
def FanoNode.flipped (node : FanoNode) (i : Nat) : FanoNode :=
  { node with encstate := node.encstate ^^^ 1, i := i }

/-- What the loop of `fano` keeps: the nodes, the node pointer, the threshold and the
progress. -/
structure FanoState where
  nodes : Nat → FanoNode
  np : Nat
  t : Int
  maxnp : Nat

/-- All possible branch metrics for a pair of received symbols, from the metric table,
which is indexed by the sent and the received symbol. -/
def branchMetrics (mettab : Nat → UInt8 → Int) (first second : UInt8) : List Int :=
  [mettab 0 first + mettab 0 second,
   mettab 0 first + mettab 1 second,
   mettab 1 first + mettab 0 second,
   mettab 1 first + mettab 1 second]

/-- `while(ngamma >= t + delta) t += delta;`, for a positive `delta` -/
def tighten (delta ngamma t : Int) : Int :=
  if 0 < delta ∧ t + delta ≤ ngamma then tighten delta ngamma (t + delta) else t
termination_by (ngamma - t).toNat

section Cycle

variable (nbits : Nat) (delta : Int)

/-- "Can't back up either. Relax threshold and and look forward again to better branch." -/
def relax (state : FanoState) : FanoState :=
  { state with
    t := state.t - delta
    nodes :=
      if (state.nodes state.np).i ≠ 0 then
        Function.update state.nodes state.np ((state.nodes state.np).flipped 0)
      else state.nodes }

/-- "Look backward" from the node pointer -/
def lookBack (nodes : Nat → FanoNode) (t : Int) (maxnp : Nat) : (np : Nat) → FanoState
  | 0 => relax delta ⟨nodes, 0, t, maxnp⟩
  | np + 1 =>
      if (nodes np).gamma < t then relax delta ⟨nodes, np + 1, t, maxnp⟩
      else if np < nbits - 31 ∧ (nodes np).i ≠ 1 then
        ⟨Function.update nodes np ((nodes np).flipped ((nodes np).i + 1)), np, t, maxnp⟩
      else lookBack nodes t maxnp np

/-- What is computed of a node when the pointer moves to it: nothing behind the last bit. -/
def FanoNode.entered (np : Nat) (node : FanoNode) : FanoNode :=
  if np = nbits then node
  else if nbits - 31 ≤ np then node.tailBranch
  else node.sorted

/-- "Move forward" to a node with this metric -/
def moveForward (state : FanoState) (ngamma : Int) : FanoState :=
  let node := state.nodes state.np
  let next := { state.nodes (state.np + 1) with gamma := ngamma, encstate := node.encstate <<< 1 }
  { state with
    t := if node.gamma < state.t + delta then tighten delta ngamma state.t else state.t
    np := state.np + 1
    nodes := Function.update state.nodes (state.np + 1) (next.entered nbits (state.np + 1)) }

/-- One cycle of the loop -/
def fanoCycle (state : FanoState) : FanoState :=
  let state := { state with maxnp := max state.maxnp state.np }
  let node := state.nodes state.np
  let ngamma := node.gamma + node.tested
  if ngamma ≥ state.t then moveForward nbits delta state ngamma
  else lookBack nbits delta state.nodes state.t state.maxnp state.np

/-- The loop with its counter and this many cycles left. It is left before the counter is
incremented when the node behind the last one is reached. -/
def fanoLoop : (left : Nat) → (i : Nat) → FanoState → Nat × FanoState
  | 0, i, state => (i, state)
  | left + 1, i, state =>
      let state := fanoCycle nbits delta state
      if state.np = nbits then (i, state) else fanoLoop left (i + 1) state

end Cycle

/-- What `fano` returns and stores. -/
structure FanoResult where
  result : Int
  metric : Nat
  cycles : Nat
  maxnp : Nat
  data : List UInt8

/-- The nodes that the loop starts from, in memory that `malloc` does not clear. -/
def fanoNodes (heap : Nat → FanoNode) (symbols : List UInt8) (nbits : Nat)
    (mettab : Nat → UInt8 → Int) (k : Nat) : FanoNode :=
  if k < nbits then
    { heap k with
      metrics := branchMetrics mettab (symbols.getD (2 * k) 0) (symbols.getD (2 * k + 1) 0) }
  else heap k

def fanoStart (heap : Nat → FanoNode) (symbols : List UInt8) (nbits : Nat)
    (mettab : Nat → UInt8 → Int) : FanoState :=
  let nodes := fanoNodes heap symbols nbits mettab
  { nodes := Function.update nodes 0 { { nodes 0 with encstate := 0 }.sorted with gamma := 0 }
    np := 0
    t := 0
    maxnp := 0 }

def fano (heap : Nat → FanoNode) (symbols : List UInt8) (nbits : Nat)
    (mettab : Nat → UInt8 → Int) (delta : Int) (maxcycles : Nat) : FanoResult :=
  let limit := maxcycles * nbits % 2 ^ 32
  let (i, last) := fanoLoop nbits delta limit 1 (fanoStart heap symbols nbits mettab)
  { result := if limit ≤ i then -1 else 0
    metric := ((last.nodes last.np).gamma % 2 ^ 32).toNat
    cycles := i + 1
    maxnp := last.maxnp
    data := (List.range (nbits / 8)).map fun k =>
      UInt8.ofNat (last.nodes (7 + 8 * k)).encstate.toNat }

section CodeTree

variable (symbols : List UInt8) (nbits : Nat) (mettab : Nat → UInt8 → Int)

/-- The metrics of the branches at this depth -/
def metricsAt (k : Nat) : List Int :=
  branchMetrics mettab (symbols.getD (2 * k) 0) (symbols.getD (2 * k + 1) 0)

/-- The metric of one more bit behind these -/
def bitMetric (bits : List Bool) (bit : Bool) : Int :=
  (metricsAt symbols mettab bits.length).getD (encodePair (stateAfter (bits ++ [bit]))) 0

/-- The cumulative metric of a path -/
def pathMetric (bits : List Bool) : Int :=
  ((List.range bits.length).map fun k =>
    bitMetric symbols mettab (bits.take k) (bits.getD k false)).sum

def codeBranches (bits : List Bool) : List (Int × List Bool) :=
  let zero := (bitMetric symbols mettab bits false, bits ++ [false])
  let one := (bitMetric symbols mettab bits true, bits ++ [true])
  if nbits ≤ bits.length then []
  else if nbits - 31 ≤ bits.length then [zero]
  else if zero.1 > one.1 then [zero, one]
  else [one, zero]

variable {symbols nbits mettab}

/-- A branch of a node adds one bit to the node's bits, and in the tail this bit is zero; its
gain is the metric of that bit. -/
theorem codeBranches_of_mem {bits : List Bool} {branch : Int × List Bool}
    (h : branch ∈ codeBranches symbols nbits mettab bits) :
    bits.length < nbits ∧ ∃ bit, branch = (bitMetric symbols mettab bits bit, bits ++ [bit]) ∧
      (nbits - 31 ≤ bits.length → bit = false) := by
  simp only [codeBranches] at h
  split at h
  · exact absurd h List.not_mem_nil
  · next hlength =>
      refine ⟨not_le.mp hlength, ?_⟩
      split at h
      · rw [List.mem_singleton] at h
        exact ⟨false, h, fun _ => rfl⟩
      · next htail =>
          split at h
          · obtain rfl | h := List.mem_cons.mp h
            · exact ⟨false, rfl, fun h => absurd h htail⟩
            · exact ⟨true, List.mem_singleton.mp h, fun h => absurd h htail⟩
          · obtain rfl | h := List.mem_cons.mp h
            · exact ⟨true, rfl, fun h => absurd h htail⟩
            · exact ⟨false, List.mem_singleton.mp h, fun h => absurd h htail⟩

theorem codeBranches_tail {bits : List Bool} (hlength : bits.length < nbits)
    (htail : nbits - 31 ≤ bits.length) :
    codeBranches symbols nbits mettab bits =
      [(bitMetric symbols mettab bits false, bits ++ [false])] := by
  rw [codeBranches, if_neg (not_le.mpr hlength), if_pos htail]

/-- Before the tail both bits have a branch. -/
theorem codeBranches_pair (symbols mettab) {bits : List Bool} (h : bits.length < nbits - 31) :
    ∃ bit, codeBranches symbols nbits mettab bits =
      [(bitMetric symbols mettab bits bit, bits ++ [bit]),
        (bitMetric symbols mettab bits !bit, bits ++ [!bit])] := by
  rw [codeBranches, if_neg (by omega), if_neg (by omega)]
  split
  · exact ⟨false, rfl⟩
  · exact ⟨true, rfl⟩

variable (symbols nbits mettab)

/-- The tree of the code. Its nodes are the bits chosen so far, and the last 31 of them are the
tail. -/
def codeTree : SearchTree (List Bool) where
  branches := codeBranches symbols nbits mettab
  height bits := nbits - bits.length
  height_branch := by
    intro bits branch h
    obtain ⟨hlength, bit, rfl, -⟩ := codeBranches_of_mem h
    simp only [List.length_append, List.length_singleton]
    omega
  branches_ne_nil := by
    intro bits h
    rw [codeBranches, if_neg (by omega)]
    split
    · exact List.cons_ne_nil _ _
    · split <;> exact List.cons_ne_nil _ _
  best_first := by
    intro bits
    simp only [codeBranches]
    split
    · exact .nil
    · split
      · exact List.pairwise_singleton _ _
      · split
        · next h => exact List.pairwise_pair.mpr h.le
        · next h => exact List.pairwise_pair.mpr (not_lt.mp h)

end CodeTree

end AirspyhfWsprd.Wspr
