import Mathlib

/-!
# Labelled transition systems

A component is modelled as a partial step function on its states: the label
names the party that moves and everything it leaves to chance, and `none` says
that the party cannot move that way.  The module fixes what a run is and
packages the induction over runs once.  A run can be restricted by a condition
on the state before each step, which is how a property that holds only while
its users keep to a rule is stated.
-/

namespace TbjitAlloc.Transition

variable {State Action : Type*}

/-- Execute a list of labels from a state. -/
def run (step : State → Action → Option State) :
    State → List Action → Option State
  | state, [] => some state
  | state, action :: actions =>
      (step state action).bind fun next => run step next actions

/-- States reached from `initial` by steps whose prior state and label satisfy
`condition`. -/
inductive ReachableWhen (step : State → Action → Option State)
    (condition : State → Action → Prop) (initial : State) : State → Prop
  | start : ReachableWhen step condition initial initial
  | next {state target : State} {action : Action} :
      ReachableWhen step condition initial state →
      condition state action → step state action = some target →
      ReachableWhen step condition initial target

/-- States reached by any run. -/
def Reachable (step : State → Action → Option State) (initial : State) :
    State → Prop :=
  ReachableWhen step (fun _ _ => True) initial

section Rules

variable {step : State → Action → Option State}
variable {condition : State → Action → Prop} {initial : State}

/-- The invariant rule: an initial fact preserved by every permitted step holds
in every state reached. -/
theorem ReachableWhen.invariant {inv : State → Prop}
    (hinitial : inv initial)
    (hstep : ∀ state action target, inv state → condition state action →
      step state action = some target → inv target)
    {state : State} (hreach : ReachableWhen step condition initial state) :
    inv state := by
  induction hreach with
  | start => exact hinitial
  | next _ hcondition htarget ih => exact hstep _ _ _ ih hcondition htarget

theorem Reachable.invariant {inv : State → Prop}
    (hinitial : inv initial)
    (hstep : ∀ state action target, inv state →
      step state action = some target → inv target)
    {state : State} (hreach : Reachable step initial state) : inv state :=
  ReachableWhen.invariant hinitial
    (fun state action target hinv _ htarget =>
      hstep state action target hinv htarget) hreach

theorem Reachable.next {state target : State} {action : Action}
    (hreach : Reachable step initial state)
    (htarget : step state action = some target) :
    Reachable step initial target :=
  ReachableWhen.next hreach trivial htarget

/-- The same for a label that is named. -/
theorem Reachable.act {state target : State} (action : Action)
    (hreach : Reachable step initial state)
    (htarget : step state action = some target) :
    Reachable step initial target :=
  hreach.next htarget

theorem ReachableWhen.act {state target : State} (action : Action)
    (hreach : ReachableWhen step condition initial state)
    (hcondition : condition state action)
    (htarget : step state action = some target) :
    ReachableWhen step condition initial target :=
  .next hreach hcondition htarget

/-- A restricted run is a run. -/
theorem ReachableWhen.reachable {state : State}
    (hreach : ReachableWhen step condition initial state) :
    Reachable step initial state := by
  induction hreach with
  | start => exact .start
  | next _ _ htarget ih => exact ih.next htarget

/-- A computed run ends in a reachable state. -/
theorem reachable_of_run {state target : State} {actions : List Action}
    (hreach : Reachable step initial state)
    (hrun : run step state actions = some target) :
    Reachable step initial target := by
  induction actions generalizing state with
  | nil =>
      simp only [run, Option.some.injEq] at hrun
      exact hrun ▸ hreach
  | cons action actions ih =>
      simp only [run, Option.bind_eq_some_iff] at hrun
      obtain ⟨next, hnext, hrest⟩ := hrun
      exact ih (hreach.next hnext) hrest

/-- A computed run whose every step passes a check of the condition. -/
theorem reachableWhen_of_run {check : State → Action → Bool}
    (hcheck : ∀ state action, check state action = true →
      condition state action)
    {state target : State} {actions : List Action}
    (hreach : ReachableWhen step condition initial state)
    (hrun : run (fun state action =>
      if check state action then step state action else none)
      state actions = some target) :
    ReachableWhen step condition initial target := by
  induction actions generalizing state with
  | nil =>
      simp only [run, Option.some.injEq] at hrun
      exact hrun ▸ hreach
  | cons action actions ih =>
      simp only [run, Option.bind_eq_some_iff] at hrun
      obtain ⟨next, hnext, hrest⟩ := hrun
      split at hnext
      · next hpasses => exact ih (.next hreach (hcheck _ _ hpasses) hnext) hrest
      · cases hnext

end Rules

end TbjitAlloc.Transition
