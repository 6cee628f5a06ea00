import Mathlib.Logic.Basic
import Mathlib.Tactic.TypeStar

/-!
Labelled transition systems given by a partial step function. An action that
is not enabled in a state has no successor. A run is a list of actions; the
`allowed` relation restricts which actions an environment takes in which
states, so that a property of every run under a condition on its steps is a
property of every state `Reachable` under that relation.
-/

namespace AirspyhfWsprd.Library

variable {σ α : Type*}

/-- The states that runs of allowed, enabled actions reach from `start`. -/
inductive Reachable (step : σ → α → Option σ) (allowed : σ → α → Prop)
    (start : σ) : σ → Prop where
  | start : Reachable step allowed start start
  | next {s t : σ} {a : α} : Reachable step allowed start s → allowed s a →
      step s a = some t → Reachable step allowed start t

/-- The relation that puts no condition on the steps of a run. -/
def anyStep (_ : σ) (_ : α) : Prop := True

/-- The induction rule for runs. The invariant may use that the state a step
is taken from is itself reachable, so earlier invariants need not be carried
along. -/
theorem Reachable.invariant {step : σ → α → Option σ} {allowed : σ → α → Prop}
    {start : σ} {inv : σ → Prop} (hstart : inv start)
    (hstep : ∀ s a t, Reachable step allowed start s → inv s → allowed s a →
      step s a = some t → inv t) :
    ∀ s, Reachable step allowed start s → inv s := by
  intro s hs
  induction hs with
  | start => exact hstart
  | next hprev hallowed hnext ih => exact hstep _ _ _ hprev ih hallowed hnext

/-- Executing a list of actions one after another. -/
def execute (step : σ → α → Option σ) : σ → List α → Option σ
  | s, [] => some s
  | s, a :: rest => (step s a).bind (execute step · rest)

/-- Every action of the list is allowed in the state it is taken from. -/
def AllAllowed (step : σ → α → Option σ) (allowed : σ → α → Prop) :
    σ → List α → Prop
  | _, [] => True
  | s, a :: rest =>
      allowed s a ∧
        match step s a with
        | none => True
        | some t => AllAllowed step allowed t rest

instance AllAllowed.decidable (step : σ → α → Option σ) (allowed : σ → α → Prop)
    [∀ s a, Decidable (allowed s a)] :
    ∀ s acts, Decidable (AllAllowed step allowed s acts)
  | _, [] => isTrue trivial
  | s, a :: rest =>
      match hstep : step s a with
      | none => decidable_of_iff (allowed s a) (by simp [AllAllowed, hstep])
      | some t =>
          have := AllAllowed.decidable step allowed t rest
          decidable_of_iff (allowed s a ∧ AllAllowed step allowed t rest)
            (by simp [AllAllowed, hstep])

/-- A concrete execution is a run. -/
theorem Reachable.of_execute {step : σ → α → Option σ} {allowed : σ → α → Prop}
    {start s t : σ} (acts : List α) (hs : Reachable step allowed start s)
    (hallowed : AllAllowed step allowed s acts)
    (hrun : execute step s acts = some t) : Reachable step allowed start t := by
  induction acts generalizing s with
  | nil =>
      cases hrun
      exact hs
  | cons a rest ih =>
      obtain ⟨next, hnext, hrest⟩ := Option.bind_eq_some_iff.mp hrun
      simp only [AllAllowed, hnext] at hallowed
      exact ih (hs.next hallowed.1 hnext) hallowed.2 hrest

/-- Actions that are allowed in every state. -/
theorem allAllowed_of_forall {step : σ → α → Option σ} {allowed : σ → α → Prop} {acts : List α}
    (hallowed : ∀ a ∈ acts, ∀ s, allowed s a) (s : σ) : AllAllowed step allowed s acts := by
  induction acts generalizing s with
  | nil => trivial
  | cons a rest ih =>
      have hrest := ih fun b hb => hallowed b (List.mem_cons_of_mem a hb)
      refine ⟨hallowed a List.mem_cons_self s, ?_⟩
      split
      · trivial
      · exact hrest _

theorem allAllowed_anyStep (step : σ → α → Option σ) (s : σ) (acts : List α) :
    AllAllowed step anyStep s acts :=
  allAllowed_of_forall (fun _ _ _ => trivial) s

/-- The state a concrete execution ends in. -/
theorem Reachable.get_execute {step : σ → α → Option σ} {allowed : σ → α → Prop}
    {start : σ} (acts : List α) (hallowed : AllAllowed step allowed start acts)
    (hrun : (execute step start acts).isSome) :
    Reachable step allowed start ((execute step start acts).get hrun) :=
  .of_execute acts .start hallowed (Option.some_get hrun).symm

/-- Every entry of a history is right after the entries before it. -/
def EachAfter {ε : Type*} (right : List ε → ε → Prop) (history : List ε) : Prop :=
  ∀ before entry after, history = before ++ entry :: after → right before entry

section Histories

variable {ε : Type*} {right : List ε → ε → Prop} {history : List ε}

theorem eachAfter_nil : EachAfter right [] := by
  intro before entry after hsplit
  cases before <;> cases hsplit

theorem EachAfter.concat (hhistory : EachAfter right history) {entry : ε}
    (hentry : right history entry) : EachAfter right (history ++ [entry]) := by
  intro before last after hsplit
  rcases List.eq_nil_or_concat after with rfl | ⟨rest, final, rfl⟩
  · obtain ⟨rfl, hlast⟩ := List.append_inj' hsplit rfl
    obtain rfl := List.singleton_inj.mp hlast
    exact hentry
  · rw [List.concat_eq_append, ← List.cons_append, ← List.append_assoc] at hsplit
    exact hhistory before last rest (List.append_inj' hsplit rfl).1

end Histories

end AirspyhfWsprd.Library
