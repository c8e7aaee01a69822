import Mathlib

/-
  Runs of a partial step function: an invariant and a
  simulation each need to be shown for one step only.

  Main declarations:
    * `run`
    * `Meets`
    * `run_invariant`, `run_preserves`
    * `run_total`, `run_succeeds`
    * `Throughout`, `throughout_of_meets`,
      `throughout_iff_meets`
    * `throughout_iff_meets_of_lost`
    * `run_simulates`
-/

namespace PlusWallet

namespace Run

variable {State Action Reference : Type}

------------------------------------------------------------
-- Runs
------------------------------------------------------------

/- Take the actions in order, as long as every step succeeds. -/
def run
    (step : State → Action → Option State)
    (state : State)
    (actions : List Action) : Option State :=
  actions.foldlM step state

@[simp]
theorem run_nil
    (step : State → Action → Option State)
    (state : State) :
    run step state [] = some state := rfl

@[simp]
theorem run_cons
    (step : State → Action → Option State)
    (state : State)
    (action : Action)
    (actions : List Action) :
    run step state (action :: actions) =
      (step state action).bind fun next =>
        run step next actions := rfl

/- Each step of a run meets a condition on the state before it. -/
def Meets
    (step : State → Action → Option State)
    (condition : State → Action → Prop) :
    State → List Action → Prop
  | _, [] => True
  | state, action :: actions =>
      condition state action ∧
        ∀ next, step state action = some next →
          Meets step condition next actions

/- A condition on the actions alone is met by every run. -/
theorem Meets.of_mem
    {step : State → Action → Option State}
    {condition : State → Action → Prop}
    {actions : List Action}
    (hAll :
      ∀ state, ∀ action ∈ actions, condition state action)
    (state : State) :
    Meets step condition state actions := by
  induction actions generalizing state with
  | nil => trivial
  | cons action actions ih =>
      refine ⟨hAll state action List.mem_cons_self, ?_⟩
      intro next _
      exact
        ih (fun state other hOther =>
          hAll state other (List.mem_cons_of_mem _ hOther)) next

/- A condition that always holds is met by every run. -/
theorem Meets.of_forall
    {step : State → Action → Option State}
    {condition : State → Action → Prop}
    (hAll : ∀ state action, condition state action)
    (state : State)
    (actions : List Action) :
    Meets step condition state actions :=
  Meets.of_mem (fun state action _ => hAll state action) state

------------------------------------------------------------
-- Induction over Runs
------------------------------------------------------------

/- What every step preserves holds after every run. -/
theorem run_invariant
    {step : State → Action → Option State}
    {condition : State → Action → Prop}
    (invariant : State → Prop)
    (hStep :
      ∀ state action next,
        invariant state → condition state action →
          step state action = some next → invariant next)
    {state : State}
    {actions : List Action}
    (hState : invariant state)
    (hMeets : Meets step condition state actions)
    {final : State}
    (hRun : run step state actions = some final) :
    invariant final := by
  induction actions generalizing state with
  | nil =>
      cases hRun
      exact hState
  | cons action actions ih =>
      rw [run_cons, Option.bind_eq_some_iff] at hRun
      rcases hRun with ⟨next, hNext, hRest⟩
      exact ih (hStep state action next hState hMeets.1 hNext)
        (hMeets.2 next hNext) hRest

/- What every step preserves without any condition. -/
theorem run_preserves
    {step : State → Action → Option State}
    (invariant : State → Prop)
    (hStep :
      ∀ state action next,
        invariant state →
          step state action = some next → invariant next)
    {state : State}
    {actions : List Action}
    (hState : invariant state)
    {final : State}
    (hRun : run step state actions = some final) :
    invariant final :=
  run_invariant invariant
    (fun state action next hInvariant _ =>
      hStep state action next hInvariant)
    hState
    (Meets.of_forall (fun _ _ => trivial) state actions) hRun

/- A run whose steps all succeed succeeds. -/
theorem run_total
    {step : State → Action → Option State}
    {actions : List Action}
    (hStep :
      ∀ state, ∀ action ∈ actions,
        ∃ next, step state action = some next)
    (state : State) :
    ∃ final, run step state actions = some final := by
  induction actions generalizing state with
  | nil => exact ⟨state, rfl⟩
  | cons action actions ih =>
      rcases hStep state action List.mem_cons_self with
        ⟨next, hNext⟩
      rw [run_cons, hNext, Option.bind_some]
      apply ih
      intro other later hLater
      exact hStep other later (List.mem_cons_of_mem _ hLater)

/- A run whose steps succeed while an invariant holds. -/
theorem run_succeeds
    {step : State → Action → Option State}
    {condition : State → Action → Prop}
    {invariant : State → Prop}
    (hStep :
      ∀ state action,
        invariant state → condition state action →
          ∃ next, step state action = some next ∧
            invariant next)
    {state : State}
    {actions : List Action}
    (hState : invariant state)
    (hMeets : Meets step condition state actions) :
    ∃ final, run step state actions = some final ∧
      invariant final := by
  induction actions generalizing state with
  | nil => exact ⟨state, rfl, hState⟩
  | cons action actions ih =>
      rcases hStep state action hState hMeets.1 with
        ⟨next, hNext, hKept⟩
      rw [run_cons, hNext, Option.bind_some]
      exact ih hKept (hMeets.2 next hNext)

/- Every state that a run reaches has a property. -/
def Throughout
    (step : State → Action → Option State)
    (property : State → Prop) :
    State → List Action → Prop
  | state, [] => property state
  | state, action :: actions =>
      property state ∧
        ∀ next, step state action = some next →
          Throughout step property next actions

/- What holds throughout a run holds where it starts. -/
theorem Throughout.head
    {step : State → Action → Option State}
    {property : State → Prop}
    {state : State}
    {actions : List Action}
    (hAll : Throughout step property state actions) :
    property state := by
  cases actions with
  | nil => exact hAll
  | cons _ _ => exact hAll.1

/- What holds throughout a run holds where it ends. -/
theorem Throughout.last
    {step : State → Action → Option State}
    {property : State → Prop}
    {state : State}
    {actions : List Action}
    (hAll : Throughout step property state actions)
    {final : State}
    (hRun : run step state actions = some final) :
    property final := by
  induction actions generalizing state with
  | nil =>
      cases hRun
      exact hAll
  | cons action actions ih =>
      rw [run_cons, Option.bind_eq_some_iff] at hRun
      rcases hRun with ⟨next, hNext, hRest⟩
      exact ih (hAll.2 next hNext) hRest

/- What an invariant gives holds throughout, if steps keep it. -/
theorem throughout_of_meets
    {step : State → Action → Option State}
    {condition : State → Action → Prop}
    {property invariant : State → Prop}
    (hHolds : ∀ state, invariant state → property state)
    (hKept :
      ∀ state action next,
        invariant state → condition state action →
          step state action = some next → invariant next)
    {state : State}
    {actions : List Action}
    (hState : invariant state)
    (hMeets : Meets step condition state actions) :
    Throughout step property state actions := by
  induction actions generalizing state with
  | nil => exact hHolds state hState
  | cons action actions ih =>
      refine ⟨hHolds state hState, ?_⟩
      intro next hNext
      exact
        ih (hKept state action next hState hMeets.1 hNext)
          (hMeets.2 next hNext)

/-
  Where a condition tells exactly which steps preserve a
  property, it tells which runs have it throughout.
-/
theorem throughout_iff_meets
    {step : State → Action → Option State}
    {condition : State → Action → Prop}
    {property invariant : State → Prop}
    (hInvariant :
      ∀ state action next,
        invariant state → step state action = some next →
          invariant next)
    (hStep :
      ∀ state action next,
        invariant state → property state →
          step state action = some next →
            (property next ↔ condition state action))
    {state : State}
    {actions : List Action}
    (hState : invariant state)
    (hProperty : property state)
    {final : State}
    (hRun : run step state actions = some final) :
    Throughout step property state actions ↔
      Meets step condition state actions := by
  induction actions generalizing state with
  | nil => exact ⟨fun _ => trivial, fun _ => hProperty⟩
  | cons action actions ih =>
      rw [run_cons, Option.bind_eq_some_iff] at hRun
      rcases hRun with ⟨next, hNext, hRest⟩
      have hExact :=
        hStep state action next hState hProperty hNext
      have hKept := hInvariant state action next hState hNext
      constructor
      · rintro ⟨-, hAll⟩
        have hThere := hAll next hNext
        have hHolds := hThere.head
        refine ⟨hExact.mp hHolds, ?_⟩
        intro other hOther
        rw [hNext, Option.some.injEq] at hOther
        subst hOther
        exact (ih hKept hHolds hRest).mp hThere
      · rintro ⟨hCondition, hAll⟩
        have hHolds := hExact.mpr hCondition
        refine ⟨hProperty, ?_⟩
        intro other hOther
        rw [hNext, Option.some.injEq] at hOther
        subst hOther
        exact (ih hKept hHolds hRest).mpr (hAll next hNext)

/-
  A step that breaks the condition need not be seen at once:
  it may lose the run, and then the end shows it.
-/
theorem throughout_iff_meets_of_lost
    {step : State → Action → Option State}
    {condition : State → Action → Prop}
    {property invariant lost : State → Prop}
    (hHolds : ∀ state, invariant state → property state)
    (hKept :
      ∀ state action next,
        invariant state → condition state action →
          step state action = some next → invariant next)
    (hBroken :
      ∀ state action next,
        invariant state → ¬ condition state action →
          step state action = some next →
            ¬ property next ∨ lost next)
    (hLost :
      ∀ state action next,
        lost state → step state action = some next →
          lost next)
    {state : State}
    {actions : List Action}
    (hState : invariant state)
    {final : State}
    (hRun : run step state actions = some final)
    (hEnd : lost final → ¬ property final) :
    Throughout step property state actions ↔
      Meets step condition state actions := by
  induction actions generalizing state with
  | nil => exact ⟨fun _ => trivial, fun _ => hHolds _ hState⟩
  | cons action actions ih =>
      rw [run_cons, Option.bind_eq_some_iff] at hRun
      rcases hRun with ⟨next, hNext, hRest⟩
      constructor
      · rintro ⟨-, hAll⟩
        have hThere := hAll next hNext
        have hMet : condition state action := by
          by_contra hNot
          rcases hBroken state action next hState hNot hNext with
            hFails | hGone
          · exact hFails hThere.head
          · exact
              hEnd (run_preserves lost hLost hGone hRest)
                (hThere.last hRest)
        have hNextKept :=
          hKept state action next hState hMet hNext
        refine ⟨hMet, ?_⟩
        intro other hOther
        rw [hNext, Option.some.injEq] at hOther
        subst hOther
        exact (ih hNextKept hRest).mp hThere
      · rintro ⟨hMet, hAll⟩
        have hNextKept :=
          hKept state action next hState hMet hNext
        refine ⟨hHolds state hState, ?_⟩
        intro other hOther
        rw [hNext, Option.some.injEq] at hOther
        subst hOther
        exact (ih hNextKept hRest).mpr (hAll next hNext)

/-
  A run whose steps follow a reference step by step does not
  fail, and ends in a state related to the reference's.
-/
theorem run_simulates
    {step : State → Action → Option State}
    (condition : State → Action → Prop)
    (reference : Reference → Action → Reference)
    (allowed : Reference → Prop)
    (related : State → Reference → Prop)
    (hStep :
      ∀ state ref action,
        related state ref → condition state action →
          allowed (reference ref action) →
            ∃ next, step state action = some next ∧
              related next (reference ref action))
    {state : State}
    {ref : Reference}
    {actions : List Action}
    (hState : related state ref)
    (hMeets : Meets step condition state actions)
    (hAllowed :
      ∀ taken, taken <+: actions →
        allowed (taken.foldl reference ref)) :
    ∃ final, run step state actions = some final ∧
      related final (actions.foldl reference ref) := by
  induction actions generalizing state ref with
  | nil => exact ⟨state, rfl, hState⟩
  | cons action actions ih =>
      rcases hStep state ref action hState hMeets.1
          (hAllowed [action] (by simp)) with
        ⟨next, hNext, hRelated⟩
      rcases ih hRelated (hMeets.2 next hNext)
          (fun taken hTaken =>
            hAllowed (action :: taken) (by simpa using hTaken))
        with ⟨final, hFinal, hEnd⟩
      exact ⟨final, by simp [hNext, hFinal], hEnd⟩

end Run

end PlusWallet
