import PlusWallet.Platform.BRHTTPServer

/-
  When the handler of an asynchronous response is called: once,
  if every call comes in turn, and otherwise never so.

  Main declarations:
    * `InOrder`, `inOrder_step`, `firesOnce_of_inOrder`
    * `Spoilt`, `spoilt_step`
    * `firesOnce_iff`
-/

namespace PlusWallet

namespace AsyncResponse

open Run

variable {Thread : Type} [DecidableEq Thread]

------------------------------------------------------------
-- States of Runs in Turn
------------------------------------------------------------

/- Nothing but `done` has been called. -/
def waiting (onDone : Bool) : State Thread :=
  { State.init with
    response := { BRHTTPResponse.init with onDone := onDone } }

/- One thread writes, and has come as far as `written`. -/
def writing
    (onDone : Bool)
    (thread : Thread)
    (call : Call)
    (written pending : List Assignment) : State Thread where
  response :=
    { written.foldl assign .init with
      onDone := onDone
      isDone := true }
  lock := none
  threads :=
    Function.update (fun _ => .idle) thread (.writing pending)
  won := some call
  deliveries := []

/- The call that won has returned. -/
def settled (onDone : Bool) (call : Call) : State Thread where
  response := { outcome call with onDone := onDone }
  lock := none
  threads := fun _ => .idle
  won := some call
  deliveries := if onDone then [outcome call] else []

/- All that a response goes through if calls come in turn. -/
inductive InOrder : State Thread → Prop where
  | waiting (onDone : Bool) : InOrder (waiting onDone)
  | writing
      (onDone : Bool)
      (thread : Thread)
      (call : Call)
      (written pending : List Assignment)
      (hCall : call.isKill = false)
      (hWritten : assignments call = written ++ pending) :
      InOrder (writing onDone thread call written pending)
  | settled (onDone : Bool) (call : Call) :
      InOrder (settled onDone call)

/- An assignment leaves the flags of a response alone. -/
theorem assign_flags
    (response : BRHTTPResponse)
    (assignment : Assignment)
    (onDone isDone : Bool) :
    assign { response with onDone := onDone, isDone := isDone }
        assignment =
      { assign response assignment with
        onDone := onDone, isDone := isDone } := by
  cases assignment <;> rfl

theorem isKilled_foldl_assign
    (list : List Assignment)
    (response : BRHTTPResponse) :
    (list.foldl assign response).isKilled =
      response.isKilled := by
  induction list generalizing response with
  | nil => rfl
  | cons assignment list ih =>
      rw [List.foldl_cons, ih]
      cases assignment <;> rfl

/- The first section, on a response that is not done. -/
theorem inOrder_begin
    {onDone : Bool}
    {thread : Thread}
    {call : Call}
    {next : State Thread}
    (hStep :
      step (waiting onDone) (.begin thread call) =
        some next) :
    InOrder next := by
  cases call with
  | kill =>
      cases onDone <;> cases hStep
      · exact InOrder.settled false .kill
      · exact InOrder.settled true .kill
  | provide status =>
      cases hStep
      exact
        InOrder.writing onDone thread (.provide status) [] _
          rfl rfl
  | provideJson status json =>
      cases hStep
      exact
        InOrder.writing onDone thread (.provideJson status json)
          [] _ rfl rfl
  | provideData status data contentType =>
      cases hStep
      exact
        InOrder.writing onDone thread
          (.provideData status data contentType) [] _ rfl rfl

/- One more assignment of the thread that writes. -/
theorem inOrder_write
    {onDone : Bool}
    {thread other : Thread}
    {call : Call}
    {written pending : List Assignment}
    (hCall : call.isKill = false)
    (hWritten : assignments call = written ++ pending)
    {next : State Thread}
    (hStep :
      step (writing onDone thread call written pending)
          (.write other) =
        some next) :
    InOrder next := by
  by_cases hThread : other = thread
  · subst hThread
    simp only [step, writing, Function.update_self] at hStep
    rcases pending with _ | ⟨assignment, pending⟩
    · cases hStep
    · have hNext :
          next =
            writing onDone other call
              (written ++ [assignment]) pending := by
        rw [← Option.some.inj hStep, assign_flags,
          Function.update_idem, writing, List.foldl_append]
        rfl
      rw [hNext]
      refine InOrder.writing _ _ _ _ _ hCall ?_
      rw [hWritten, List.append_assoc, List.singleton_append]
  · simp only [step, writing,
      Function.update_of_ne hThread] at hStep
    cases hStep

/- The second section of the thread that writes. -/
theorem inOrder_finish
    {onDone : Bool}
    {thread other : Thread}
    {call : Call}
    {written pending : List Assignment}
    (hCall : call.isKill = false)
    (hWritten : assignments call = written ++ pending)
    {next : State Thread}
    (hStep :
      step (writing onDone thread call written pending)
          (.finish other) =
        some next) :
    InOrder next := by
  by_cases hThread : other = thread
  · subst hThread
    simp only [step, writing, Function.update_self] at hStep
    rcases pending with _ | ⟨assignment, pending⟩
    · rw [List.append_nil] at hWritten
      have hKilled :
          ((assignments call).foldl assign .init).isKilled =
            call.isKill := by
        rw [isKilled_foldl_assign, hCall]
        rfl
      have hResponse :
          { (assignments call).foldl assign .init with
            onDone := onDone
            isDone := true } =
            { outcome call with onDone := onDone } := by
        rw [outcome, ← hKilled]
      have hNext : next = settled onDone call := by
        rw [← Option.some.inj hStep]
        simp only [finish, Function.update_idem,
          objc_sync_exit, ← hWritten, hResponse]
        have hIdle :
            Function.update (fun _ => Progress.idle) other
                .idle =
              fun _ : Thread => .idle :=
          Function.update_eq_self other _
        rw [hIdle]
        cases onDone <;> rfl
      rw [hNext]
      exact InOrder.settled onDone call
    · cases hStep
  · simp only [step, writing,
      Function.update_of_ne hThread] at hStep
    cases hStep

/- Steps in turn lead from such states to such states. -/
theorem inOrder_step
    (state : State Thread)
    (action : Action Thread)
    (next : State Thread)
    (hState : InOrder state)
    (hTurn : InTurn state action)
    (hStep : step state action = some next) :
    InOrder next := by
  cases hState with
  | waiting onDone =>
      cases action with
      | begin thread call => exact inOrder_begin hStep
      | write thread => cases hStep
      | finish thread => cases hStep
      | done thread =>
          cases onDone <;> cases hStep
          exact InOrder.waiting true
  | writing onDone thread call written pending hCall hWritten =>
      cases action with
      | begin other call => cases hTurn
      | write other => exact inOrder_write hCall hWritten hStep
      | finish other =>
          exact inOrder_finish hCall hWritten hStep
      | done other =>
          have hIdle := hTurn thread
          simp only [writing, Function.update_self] at hIdle
          cases hIdle
  | settled onDone call =>
      cases action with
      | begin thread call => cases hTurn
      | write thread => cases hStep
      | finish thread => cases hStep
      | done thread =>
          cases onDone <;> cases hStep
          exact InOrder.settled true call

theorem firesOnce_of_inOrder
    (state : State Thread)
    (hState : InOrder state) :
    FiresOnce state := by
  cases hState with
  | waiting onDone =>
      refine ⟨Nat.zero_le 1, ?_, ?_, rfl⟩
      · intro _ hDone
        cases hDone
      · intro response hMem
        cases hMem
  | writing onDone thread call written pending =>
      refine ⟨Nat.zero_le 1, ?_, ?_, rfl⟩
      · intro _ _ hReturned
        have hIdle := hReturned thread
        simp only [writing, Function.update_self] at hIdle
        cases hIdle
      · intro response hMem
        cases hMem
  | settled onDone call =>
      cases onDone with
      | false =>
          refine ⟨Nat.zero_le 1, ?_, ?_, rfl⟩
          · intro hOn
            cases hOn
          · intro response hMem
            cases hMem
      | true =>
          refine ⟨Nat.le_refl 1, ?_, ?_, rfl⟩
          · intro _ _ _
            exact List.cons_ne_nil _ _
          · intro response hMem
            rw [List.mem_singleton.mp hMem]
            rfl

------------------------------------------------------------
-- Steps out of Turn
------------------------------------------------------------

/- The handler was called twice, or will be. -/
def Spoilt (state : State Thread) : Prop :=
  state.response.onDone = true ∧
    (2 ≤ state.deliveries.length ∨
      (1 ≤ state.deliveries.length ∧
        ∃ thread pending,
          state.threads thread = .writing pending))

/- A call that loses changes nothing but the lock. -/
theorem step_begin_done
    {state next : State Thread}
    {thread : Thread}
    {call : Call}
    (hDone : state.response.isDone = true)
    (hStep : step state (.begin thread call) = some next) :
    next = { state with lock := next.lock } ∧
      next.lock ≠ none := by
  simp only [step] at hStep
  split at hStep
  · cases hStep
  · rcases Option.map_eq_some_iff.mp hStep with
      ⟨entered, hEnter, hNext⟩
    have hHeld :
        begin state thread call entered =
          { state with lock := entered } :=
      if_pos hDone
    rw [← hNext, hHeld]
    exact ⟨rfl, objc_sync_enter_ne_none hEnter⟩

/- The handler is called for the second time. -/
omit [DecidableEq Thread] in
theorem spoilt_fire
    {state : State Thread}
    (hOn : state.response.onDone = true)
    (hCount :
      2 ≤ state.deliveries.length ∨
        1 ≤ state.deliveries.length) :
    Spoilt (fire state) := by
  have hFire :
      fire state =
        { state with
          deliveries := state.deliveries ++ [state.response] } :=
    if_pos hOn
  rw [hFire]
  refine ⟨hOn, Or.inl ?_⟩
  rw [List.length_append]
  rcases hCount with hTwo | hOne
  · exact Nat.le_add_right_of_le hTwo
  · exact Nat.succ_le_succ hOne

/- Another call leaves a spoilt response spoilt. -/
theorem spoilt_begin
    {state next : State Thread}
    {thread : Thread}
    {call : Call}
    (hSpoilt : Spoilt state)
    (hStep : step state (.begin thread call) = some next) :
    Spoilt next := by
  rcases hSpoilt with ⟨hOn, hCount⟩
  unfold step at hStep
  dsimp only at hStep
  split at hStep
  · cases hStep
  · rename_i hIdle
    rcases Option.map_eq_some_iff.mp hStep with
      ⟨entered, -, rfl⟩
    have hOther :
        ∀ pending other rest,
          state.threads other = .writing rest →
            Function.update state.threads thread
                (.writing pending) other =
              .writing rest := by
      intro pending other rest hWriting
      rw [Function.update_of_ne, hWriting]
      rintro rfl
      rw [hIdle] at hWriting
      cases hWriting
    unfold begin
    split_ifs
    · exact ⟨hOn, hCount⟩
    · cases call with
      | kill => exact spoilt_fire hOn (hCount.imp_right And.left)
      | provide _ | provideJson _ _ | provideData _ _ _ =>
          refine ⟨hOn, hCount.imp_right ?_⟩
          rintro ⟨hOne, other, rest, hWriting⟩
          exact ⟨hOne, other, rest, hOther _ _ _ hWriting⟩

theorem spoilt_step
    (state : State Thread)
    (action : Action Thread)
    (next : State Thread)
    (hSpoilt : Spoilt state)
    (hStep : step state action = some next) :
    Spoilt next := by
  have hKept := hSpoilt
  rcases hSpoilt with ⟨hOn, hCount⟩
  cases action with
  | begin thread call => exact spoilt_begin hKept hStep
  | write thread =>
      simp only [step] at hStep
      split at hStep
      · rename_i assignment pending hWriting
        cases hStep
        refine ⟨?_, hCount.imp_right ?_⟩
        · cases assignment <;> exact hOn
        · rintro ⟨hOne, -⟩
          exact
            ⟨hOne, thread, pending, Function.update_self ..⟩
      · cases hStep
  | finish thread =>
      simp only [step] at hStep
      split at hStep
      · rcases Option.map_eq_some_iff.mp hStep with
          ⟨entered, -, rfl⟩
        exact spoilt_fire hOn (hCount.imp_right And.left)
      · cases hStep
  | done thread =>
      simp only [step] at hStep
      split at hStep
      · cases hStep
      · rw [if_pos hOn] at hStep
        cases hStep

/- Out of turn, the lock stays held or the response is spoilt. -/
theorem spoilt_of_not_inTurn
    (state : State Thread)
    (action : Action Thread)
    (next : State Thread)
    (hState : InOrder state)
    (hTurn : ¬ InTurn state action)
    (hStep : step state action = some next) :
    ¬ FiresOnce next ∨ Spoilt next := by
  cases action with
  | begin thread call =>
      have hDone : state.response.isDone = true :=
        Bool.not_eq_false _ ▸ hTurn
      refine Or.inl fun hFires => ?_
      exact (step_begin_done hDone hStep).2 hFires.released
  | write thread => exact absurd trivial hTurn
  | finish thread => exact absurd trivial hTurn
  | done other =>
      cases hState with
      | waiting onDone =>
          exact absurd (fun _ => rfl) hTurn
      | settled onDone call =>
          exact absurd (fun _ => rfl) hTurn
      | writing onDone thread call written pending =>
          right
          simp only [step] at hStep
          split at hStep
          · cases hStep
          · split_ifs at hStep
            rcases Option.map_eq_some_iff.mp hStep with
              ⟨entered, -, rfl⟩
            have hThreads :
                (done
                  (writing onDone thread call written pending)
                  entered).threads thread =
                  .writing pending := by
              simp only [done, fire, writing, if_true,
                Function.update_self]
            exact
              ⟨rfl, Or.inr
                ⟨Nat.le_refl 1, thread, pending, hThreads⟩⟩

omit [DecidableEq Thread] in
theorem not_firesOnce_of_spoilt
    {state : State Thread}
    (hSpoilt : Spoilt state)
    (hReturned : Returned state) :
    ¬ FiresOnce state := by
  intro hFires
  rcases hSpoilt.2 with hTwo | ⟨-, thread, pending, hWriting⟩
  · exact absurd (Nat.le_trans hTwo hFires.once) (by decide)
  · rw [hReturned thread] at hWriting
    cases hWriting

/-
  A run in turn has its handler called once, on everything that
  the call that won gave, and no other run has in which every
  call returns; a call that loses changes the lock only.
-/
theorem firesOnce_iff (actions : List (Action Thread)) :
    (Meets step InTurn State.init actions →
        Throughout step FiresOnce State.init actions) ∧
      (∀ final, run step State.init actions = some final →
        Returned final →
          (Throughout step FiresOnce State.init actions ↔
            Meets step InTurn State.init actions)) ∧
      ∀ (state next : State Thread) (thread : Thread)
        (call : Call),
        state.response.isDone = true →
          step state (.begin thread call) = some next →
            next = { state with lock := next.lock } := by
  have hInit : InOrder (State.init : State Thread) :=
    InOrder.waiting false
  refine ⟨?_, ?_, ?_⟩
  · exact
      throughout_of_meets firesOnce_of_inOrder inOrder_step hInit
  · intro final hRun hReturned
    exact
      throughout_iff_meets_of_lost firesOnce_of_inOrder
        inOrder_step spoilt_of_not_inTurn spoilt_step hInit
        hRun fun hSpoilt =>
          not_firesOnce_of_spoilt hSpoilt hReturned
  · intro state next thread call hDone hStep
    exact (step_begin_done hDone hStep).1

/- A status is provided when the handler is there. -/
def inTurnRun : List (Action Nat) :=
  [.done 0, .begin 1 (.provide 200), .write 1, .write 1,
    .finish 1]

theorem firesOnce_iff_inTurn :
    Throughout step FiresOnce State.init inTurnRun := by
  apply (firesOnce_iff inTurnRun).1
  refine ⟨fun _ => rfl, ?_⟩
  rintro _ ⟨⟩
  refine ⟨rfl, ?_⟩
  rintro _ ⟨⟩
  refine ⟨trivial, ?_⟩
  rintro _ ⟨⟩
  refine ⟨trivial, ?_⟩
  rintro _ ⟨⟩
  refine ⟨trivial, ?_⟩
  rintro _ ⟨⟩
  trivial

/- The handler comes between the sections of `provide`. -/
def earlyRun : List (Action Nat) :=
  [.begin 1 (.provide 200), .done 0, .write 1, .write 1,
    .finish 1]

/- It is called at once, with no status, and once more later. -/
theorem not_firesOnce :
    ¬ ∀ actions : List (Action Nat),
      Throughout step FiresOnce State.init actions := by
  intro hAll
  have hFires := (hAll earlyRun).last rfl
  exact absurd hFires.once (by decide)

end AsyncResponse

end PlusWallet
