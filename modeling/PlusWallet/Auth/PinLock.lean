import PlusWallet.Library.Run

/-
  Authentication by PIN in `WalletManager+Auth.swift`, with a
  keychain that works.

  A time is the rational number that its `Double` stands for,
  in seconds since 1970.  A result of `none` stands for a trap
  of a conversion.

  Main declarations:
    * `PinState`, `PinState.walletDisabledUntil`
    * `PinState.authenticate`, `PinState.authenticate_cases`
    * `PinHistory.step`
    * `PinLaw`, `PinHistory.pinLaw_of_run`
-/

namespace PlusWallet

------------------------------------------------------------
-- Calls
------------------------------------------------------------

/-
  The items of the keychain, and the pins that have failed
  since the app was started.
-/
structure PinState where
  pin : Option String
  pinFailCount : Option Nat
  pinFailTime : Option Int
  failedPins : List String
deriving DecidableEq

/- `Int64` of a time, which is cut toward zero -/
def int64OfTime (time : ℚ) : Option Int :=
  let whole := if 0 ≤ time then ⌊time⌋ else ⌈time⌉
  if -2 ^ 63 ≤ whole ∧ whole < 2 ^ 63 then some whole
  else none

/- The result of `authenticate(pin:)`, and what it has done. -/
structure PinAttempt where
  state : PinState
  accepted : Bool
  compared : Bool
  wipes : Bool
deriving DecidableEq

namespace PinState

/- The count of failures, as every reader takes it. -/
def failCount (state : PinState) : Nat :=
  state.pinFailCount.getD 0

def failTime (state : PinState) : Int :=
  state.pinFailTime.getD 0

/- `walletDisabledUntil` -/
def walletDisabledUntil (state : PinState) : ℚ :=
  if 3 ≤ state.failCount then
    state.failTime + 6 ^ (state.failCount - 3) * 60
  else 0

/- `authenticationSuccess`, as far as PINs go -/
def authenticationSuccess (state : PinState) : PinState :=
  { state with
    failedPins := []
    pinFailTime := some 0
    pinFailCount := some 0 }

/- `authenticate(pin:)` -/
def authenticate
    (state : PinState)
    (pin : String)
    (secureTime : ℚ) : Option PinAttempt :=
  let failCount := state.failCount
  if 3 ≤ failCount ∧
      secureTime <
        state.failTime + 6 ^ (failCount - 3) * 60 then
    -- locked out
    some
      { state := state
        accepted := false
        compared := false
        wipes := false }
  else
    -- count unique attempts before checking success
    let failCount :=
      if pin ∉ state.failedPins then failCount + 1
      else failCount
    let state :=
      if pin ∉ state.failedPins then
        { state with pinFailCount := some failCount }
      else state
    if state.pin = some pin then
      some
        { state := state.authenticationSuccess
          accepted := true
          compared := true
          wipes := false }
    else if pin ∉ state.failedPins then
      let state :=
        { state with failedPins := state.failedPins ++ [pin] }
      if 8 ≤ failCount then
        some
          { state := state
            accepted := false
            compared := true
            wipes := true }
      else do
        let pinFailTime ←
          if (state.failTime : ℚ) < secureTime then do
            let time ← int64OfTime secureTime
            some (some time)
          else some state.pinFailTime
        some
          { state := { state with pinFailTime := pinFailTime }
            accepted := false
            compared := true
            wipes := false }
    else
      some
        { state := state
          accepted := false
          compared := true
          wipes := false }

end PinState

/- A time is less than a second past the whole one kept. -/
theorem lt_of_int64OfTime
    {time : ℚ}
    {whole : Int}
    (hWhole : int64OfTime time = some whole) :
    time < whole + 1 := by
  simp only [int64OfTime] at hWhole
  split_ifs at hWhole
  · cases hWhole
    exact Int.lt_floor_add_one time
  · cases hWhole
    have hLe := Int.le_ceil time
    linarith

namespace PinState

/-
  What a call does: nothing while it is locked out; otherwise
  it accepts the PIN, meets one that has failed before, or
  counts a new failure and keeps its time.
-/
theorem authenticate_cases
    {state : PinState}
    {pin : String}
    {secureTime : ℚ}
    {attempt : PinAttempt}
    (hAttempt :
      state.authenticate pin secureTime = some attempt) :
    (attempt = ⟨state, false, false, false⟩) ∨
      ((3 ≤ state.failCount →
          state.failTime + 6 ^ (state.failCount - 3) * 60 ≤
            secureTime) ∧
        ((attempt.state.failCount = 0 ∧
            attempt.state.failedPins = [] ∧
            attempt.accepted = true ∧
            attempt.wipes = false) ∨
          (pin ∈ state.failedPins ∧
            attempt = ⟨state, false, true, false⟩) ∨
          (pin ∉ state.failedPins ∧
            attempt.state.failCount = state.failCount + 1 ∧
            attempt.state.failedPins =
              state.failedPins ++ [pin] ∧
            attempt.accepted = false ∧
            attempt.compared = true ∧
            attempt.wipes = decide (8 ≤ state.failCount + 1) ∧
            (state.failCount + 1 < 8 →
              secureTime < attempt.state.failTime + 1)))) := by
  simp only [authenticate] at hAttempt
  by_cases hLocked :
      3 ≤ state.failCount ∧
        secureTime <
          state.failTime + 6 ^ (state.failCount - 3) * 60
  · rw [if_pos hLocked] at hAttempt
    exact Or.inl (Option.some.inj hAttempt).symm
  · rw [if_neg hLocked] at hAttempt
    right
    refine ⟨fun hMany => ?_, ?_⟩
    · rw [not_and] at hLocked
      exact not_lt.mp (hLocked hMany)
    · by_cases hKnown : pin ∈ state.failedPins
      · simp only [hKnown, not_true, if_false] at hAttempt
        split_ifs at hAttempt with hRight
        · cases hAttempt
          exact Or.inl ⟨rfl, rfl, rfl, rfl⟩
        · cases hAttempt
          exact Or.inr (Or.inl ⟨hKnown, rfl⟩)
      · simp only [hKnown, not_false_eq_true, if_true]
          at hAttempt
        split_ifs at hAttempt with hRight hWipes hLater
        · cases hAttempt
          exact Or.inl ⟨rfl, rfl, rfl, rfl⟩
        · cases hAttempt
          right; right
          refine ⟨hKnown, rfl, rfl, rfl, rfl, ?_, ?_⟩
          · exact (decide_eq_true hWipes).symm
          · omega
        · simp only [Option.bind_eq_bind,
            Option.bind_eq_some_iff] at hAttempt
          rcases hAttempt with
            ⟨whole, hWhole, _, hKept, hEqual⟩
          cases hKept
          cases hEqual
          right; right
          refine ⟨hKnown, rfl, rfl, rfl, rfl, ?_, fun _ => ?_⟩
          · exact (decide_eq_false hWipes).symm
          · exact lt_of_int64OfTime hWhole
        · cases hAttempt
          right; right
          refine ⟨hKnown, rfl, rfl, rfl, rfl, ?_, fun _ => ?_⟩
          · exact (decide_eq_false hWipes).symm
          · change secureTime < state.failTime + 1
            change ¬ (state.failTime : ℚ) < secureTime at hLater
            linarith

end PinState

------------------------------------------------------------
-- Sequences of Calls
------------------------------------------------------------

/-
  The calls so far: the time of the last one, the times of the
  failures since the last success that raised the count, and
  the wrong pins that were compared before the wipe trigger
  fired, since the last success and ever.
-/
structure PinHistory where
  state : PinState
  now : ℚ
  failures : List ℚ
  wrong : Finset String
  everWrong : Finset String
  triggered : Bool

inductive PinAction where
  | authenticate (pin : String) (secureTime : ℚ)
  | restart

namespace PinHistory

/- The history before any call. -/
def start (state : PinState) (now : ℚ) : PinHistory where
  state := state
  now := now
  failures := []
  wrong := ∅
  everWrong := ∅
  triggered := false

/- What an attempt adds to the history. -/
def record
    (history : PinHistory)
    (pin : String)
    (secureTime : ℚ)
    (attempt : PinAttempt) : PinHistory where
  state := attempt.state
  now := secureTime
  failures :=
    if attempt.accepted then []
    else if history.state.failCount <
        attempt.state.failCount then
      history.failures ++ [secureTime]
    else history.failures
  wrong :=
    if attempt.accepted then ∅
    else if attempt.compared && !history.triggered then
      insert pin history.wrong
    else history.wrong
  everWrong :=
    if !attempt.accepted && attempt.compared &&
        !history.triggered then
      insert pin history.everWrong
    else history.everWrong
  triggered := history.triggered || attempt.wipes

/- One call, or a restart of the app -/
def step
    (history : PinHistory) : PinAction → Option PinHistory
  | .authenticate pin secureTime => do
      let attempt ← history.state.authenticate pin secureTime
      some (history.record pin secureTime attempt)
  | .restart =>
      some
        { history with
          state := { history.state with failedPins := [] } }

/- The times of the calls. -/
def times (actions : List PinAction) : List ℚ :=
  actions.filterMap fun action =>
    match action with
    | .authenticate _ secureTime => some secureTime
    | .restart => none

/- Time does not go back. -/
def InOrder (history : PinHistory) : PinAction → Prop
  | .authenticate _ secureTime => history.now ≤ secureTime
  | .restart => True

/- Times that do not decrease are in order at every call. -/
theorem meets_of_times
    {history : PinHistory}
    {actions : List PinAction}
    (hTimes :
      (history.now :: times actions).Pairwise (· ≤ ·)) :
    Run.Meets step InOrder history actions := by
  induction actions generalizing history with
  | nil => trivial
  | cons action actions ih =>
      cases action with
      | restart =>
          refine ⟨trivial, ?_⟩
          rintro _ ⟨⟩
          exact ih hTimes
      | authenticate pin secureTime =>
          change
            (history.now :: secureTime ::
              times actions).Pairwise (· ≤ ·) at hTimes
          rw [List.pairwise_cons] at hTimes
          refine ⟨hTimes.1 _ List.mem_cons_self, ?_⟩
          intro next hStep
          simp only [step, Option.bind_eq_bind,
            Option.bind_eq_some_iff] at hStep
          rcases hStep with ⟨attempt, -, hEqual⟩
          cases hEqual
          exact ih hTimes.2

------------------------------------------------------------
-- The Invariant
------------------------------------------------------------

/- The failures that are counted have their distance. -/
def Spaced (failures : List ℚ) : Prop :=
  ∀ k, 4 ≤ k → k ≤ 8 → ∀ earlier later,
    failures[k - 2]? = some earlier →
    failures[k - 1]? = some later →
      earlier + 6 ^ (k - 4) * 60 - 1 ≤ later

/-
  The count is that of the failures, the time that is kept is
  that of the last one, and each wrong pin has been counted.
-/
structure Counted (history : PinHistory) : Prop where
  time : 0 ≤ history.now
  count : history.state.failCount = history.failures.length
  last :
    ∀ time, history.failures.getLast? = some time →
      history.failures.length < 8 →
        time < history.state.failTime + 1
  spaced : Spaced history.failures
  few :
    history.triggered = false →
      history.state.failCount < 8 ∧
        history.wrong.card ≤ history.state.failCount ∧
        ∀ pin ∈ history.state.failedPins, pin ∈ history.wrong
  wrong : history.wrong.card ≤ 8

variable {history next : PinHistory}
variable {pin : String}
variable {secureTime : ℚ}
variable {attempt : PinAttempt}

/- A new failure keeps its distance from the one before. -/
theorem Spaced.append
    {failures : List ℚ}
    {failTime : Int}
    (hSpaced : Spaced failures)
    (hLast :
      ∀ time, failures.getLast? = some time →
        failures.length < 8 → time < failTime + 1)
    (hOpen :
      3 ≤ failures.length →
        failTime + 6 ^ (failures.length - 3) * 60 ≤
          secureTime) :
    Spaced (failures ++ [secureTime]) := by
  intro k hLow hHigh earlier later hEarlier hLater
  have hLength :
      k - 1 < (failures ++ [secureTime]).length :=
    (List.getElem?_eq_some_iff.mp hLater).1
  rw [List.length_append, List.length_singleton] at hLength
  have hBefore : k - 2 < failures.length := by omega
  rw [List.getElem?_append_left hBefore] at hEarlier
  by_cases hOld : k - 1 < failures.length
  · rw [List.getElem?_append_left hOld] at hLater
    exact hSpaced k hLow hHigh earlier later hEarlier hLater
  · have hCount : failures.length = k - 1 := by omega
    have hTime : later = secureTime := by
      rw [List.getElem?_append_right (by omega), hCount,
        Nat.sub_self] at hLater
      exact (Option.some.inj hLater).symm
    have hEarlierLast : earlier < failTime + 1 := by
      apply hLast
      · rw [List.getLast?_eq_getElem?, hCount]
        exact hEarlier
      · omega
    have hWait := hOpen (by omega)
    have hSame : failures.length - 3 = k - 4 := by omega
    rw [hSame] at hWait
    rw [hTime]
    linarith

/- A history that has seen no failure since its last success. -/
theorem Counted.of_success
    (hCounted : Counted history)
    (hOrder : history.now ≤ secureTime)
    (hCount : attempt.state.failCount = 0)
    (hPins : attempt.state.failedPins = [])
    (hAccepted : attempt.accepted = true) :
    Counted (history.record pin secureTime attempt) where
  time := hCounted.time.trans hOrder
  count := by
    simp only [record, hAccepted, if_true, hCount]
    rfl
  last := by
    intro time hTime
    simp only [record, hAccepted, if_true] at hTime
    cases hTime
  spaced := by
    intro k _ _ earlier later hEarlier
    simp only [record, hAccepted, if_true] at hEarlier
    cases hEarlier
  few := by
    intro _
    simp only [record, hAccepted, if_true, hCount, hPins]
    exact ⟨by decide, by decide, nofun⟩
  wrong := by
    simp only [record, hAccepted, if_true]
    decide

/- A pin that has failed before is not counted again. -/
theorem Counted.of_known
    (hCounted : Counted history)
    (hOrder : history.now ≤ secureTime)
    (hKnown : pin ∈ history.state.failedPins) :
    Counted
      (history.record pin secureTime
        ⟨history.state, false, true, false⟩) := by
  have hFailures :
      (history.record pin secureTime
          ⟨history.state, false, true, false⟩).failures =
        history.failures := by
    simp [record]
  have hWrong :
      (history.record pin secureTime
          ⟨history.state, false, true, false⟩).wrong =
        history.wrong := by
    cases hTriggered : history.triggered with
    | false =>
        have hMem :=
          (hCounted.few hTriggered).2.2 pin hKnown
        simp [record, hTriggered, Finset.insert_eq_of_mem hMem]
    | true => simp [record, hTriggered]
  constructor
  · exact hCounted.time.trans hOrder
  · rw [hFailures]
    exact hCounted.count
  · rw [hFailures]
    exact hCounted.last
  · rw [hFailures]
    exact hCounted.spaced
  · rw [hWrong]
    intro hTriggered
    apply hCounted.few
    simpa [record] using hTriggered
  · rw [hWrong]
    exact hCounted.wrong

/- A pin that has not failed before is counted. -/
theorem Counted.of_failure
    (hCounted : Counted history)
    (hOrder : history.now ≤ secureTime)
    (hOpen :
      3 ≤ history.state.failCount →
        history.state.failTime +
            6 ^ (history.state.failCount - 3) * 60 ≤
          secureTime)
    (hCount :
      attempt.state.failCount = history.state.failCount + 1)
    (hPins :
      attempt.state.failedPins =
        history.state.failedPins ++ [pin])
    (hRejected : attempt.accepted = false)
    (hCompared : attempt.compared = true)
    (hWipes :
      attempt.wipes =
        decide (8 ≤ history.state.failCount + 1))
    (hTime :
      history.state.failCount + 1 < 8 →
        secureTime < attempt.state.failTime + 1) :
    Counted (history.record pin secureTime attempt) := by
  have hFailures :
      (history.record pin secureTime attempt).failures =
        history.failures ++ [secureTime] := by
    simp [record, hRejected, hCount]
  have hLength := hCounted.count
  constructor
  · exact hCounted.time.trans hOrder
  · rw [hFailures, List.length_append, ← hLength]
    exact hCount
  · rw [hFailures, List.getLast?_append, List.length_append]
    intro time hLast hFew
    cases hLast
    apply hTime
    rw [hLength]
    exact hFew
  · rw [hFailures]
    apply hCounted.spaced.append hCounted.last
    rw [← hLength]
    exact hOpen
  · intro hTriggered
    rw [record, Bool.or_eq_false_iff, hWipes,
      decide_eq_false_iff_not] at hTriggered
    rcases hCounted.few hTriggered.1 with
      ⟨_, hCard, hMem⟩
    have hInsert :=
      Finset.card_insert_le pin history.wrong
    simp only [record, hRejected, hCompared, hTriggered.1,
      hCount, hPins, Bool.false_eq_true, if_false,
      Bool.not_false, Bool.and_self, if_true]
    refine ⟨by omega, by omega, ?_⟩
    intro other hOther
    rcases List.mem_append.mp hOther with hOld | hNew
    · exact Finset.mem_insert_of_mem (hMem other hOld)
    · rw [List.mem_singleton.mp hNew]
      exact Finset.mem_insert_self _ _
  · cases hTriggered : history.triggered with
    | true =>
        simp only [record, hRejected, hTriggered,
          Bool.not_true, Bool.and_false, Bool.false_eq_true,
          if_false]
        exact hCounted.wrong
    | false =>
        rcases hCounted.few hTriggered with ⟨hFew, hCard, -⟩
        have hInsert :=
          Finset.card_insert_le pin history.wrong
        simp only [record, hRejected, hCompared, hTriggered,
          Bool.false_eq_true, if_false, Bool.not_false,
          Bool.and_self, if_true]
        omega

/- A call while it is locked out changes nothing. -/
theorem Counted.of_locked
    (hCounted : Counted history)
    (hOrder : history.now ≤ secureTime) :
    Counted
      (history.record pin secureTime
        ⟨history.state, false, false, false⟩) := by
  have hSame :
      history.record pin secureTime
          ⟨history.state, false, false, false⟩ =
        { history with now := secureTime } := by
    simp [record]
  rw [hSame]
  exact
    { time := hCounted.time.trans hOrder
      count := hCounted.count
      last := hCounted.last
      spaced := hCounted.spaced
      few := hCounted.few
      wrong := hCounted.wrong }

theorem counted_step
    {action : PinAction}
    (hCounted : Counted history)
    (hOrder : InOrder history action)
    (hStep : step history action = some next) :
    Counted next := by
  cases action with
  | restart =>
      cases hStep
      exact
        { time := hCounted.time
          count := hCounted.count
          last := hCounted.last
          spaced := hCounted.spaced
          few := by
            intro hTriggered
            rcases hCounted.few hTriggered with
              ⟨hFew, hCard, -⟩
            exact ⟨hFew, hCard, nofun⟩
          wrong := hCounted.wrong }
  | authenticate pin secureTime =>
      simp only [step, Option.bind_eq_bind,
        Option.bind_eq_some_iff] at hStep
      rcases hStep with ⟨attempt, hAttempt, hEqual⟩
      cases hEqual
      rcases PinState.authenticate_cases hAttempt with
        rfl | ⟨hOpen, ⟨hCount, hPins, hAccepted, -⟩ |
          ⟨hKnown, rfl⟩ |
          ⟨-, hCount, hPins, hRejected, hCompared, hWipes,
            hTime⟩⟩
      · exact hCounted.of_locked hOrder
      · exact hCounted.of_success hOrder hCount hPins hAccepted
      · exact hCounted.of_known hOrder hKnown
      · exact
          hCounted.of_failure hOrder hOpen hCount hPins
            hRejected hCompared hWipes hTime

------------------------------------------------------------
-- Runs
------------------------------------------------------------

/-
  No pin is accepted during a lock, failures that are counted
  keep their distance, and at most eight different wrong pins
  have been compared since the last success before the trigger
  fires.
-/
structure PinLaw (history : PinHistory) : Prop where
  locked :
    ∀ pin secureTime attempt,
      history.now ≤ secureTime →
      history.state.authenticate pin secureTime =
        some attempt →
      attempt.accepted = true →
        history.state.walletDisabledUntil ≤ secureTime
  spaced : Spaced history.failures
  wrong : history.wrong.card ≤ 8

theorem pinLaw_of_counted
    (hCounted : Counted history) :
    PinLaw history where
  locked := by
    intro pin secureTime attempt hOrder hAttempt hAccepted
    unfold PinState.walletDisabledUntil
    split_ifs with hMany
    · rcases PinState.authenticate_cases hAttempt with
        rfl | ⟨hOpen, -⟩
      · cases hAccepted
      · exact hOpen hMany
    · exact hCounted.time.trans hOrder
  spaced := hCounted.spaced
  wrong := hCounted.wrong

theorem counted_start
    {state : PinState}
    {now : ℚ}
    (hTime : 0 ≤ now)
    (hCount : state.failCount = 0)
    (hPins : state.failedPins = []) :
    Counted (start state now) where
  time := hTime
  count := hCount
  last := nofun
  spaced := nofun
  few := by
    intro _
    simp only [start, hCount, hPins]
    exact ⟨by decide, by decide, nofun⟩
  wrong := by simp [start]

/- The law holds after every run from no failures. -/
theorem pinLaw_of_run
    {state : PinState}
    {now : ℚ}
    {actions : List PinAction}
    {final : PinHistory}
    (hTime : 0 ≤ now)
    (hCount : state.failCount = 0)
    (hPins : state.failedPins = [])
    (hTimes : (now :: times actions).Pairwise (· ≤ ·))
    (hRun : Run.run step (start state now) actions = some final) :
    PinLaw final := by
  apply pinLaw_of_counted
  exact
    Run.run_invariant Counted
      (fun _ _ _ hState hOrder hStep =>
        counted_step hState hOrder hStep)
      (counted_start hTime hCount hPins)
      (meets_of_times hTimes) hRun

/- A keychain that holds a PIN. -/
def pinState : PinState where
  pin := some "1234"
  pinFailCount := none
  pinFailTime := none
  failedPins := []

/- A failure, a restart and a success. -/
def failureAndSuccess : List PinAction :=
  [.authenticate "0" (1 / 2), .restart, .authenticate "1234" 1]

theorem pinLaw_of_run_failure :
    ∃ final,
      Run.run step (start pinState 0) failureAndSuccess =
          some final ∧
        PinLaw final := by
  have hRun :
      (Run.run step (start pinState 0)
        failureAndSuccess).isSome := by
    decide +kernel
  rcases Option.isSome_iff_exists.mp hRun with ⟨final, hFinal⟩
  exact
    ⟨final, hFinal,
      pinLaw_of_run (le_refl 0) rfl rfl (by decide +kernel)
        hFinal⟩

/- Two wrong pins at a time, with a success after each pair. -/
def wrongPairs : List PinAction :=
  [.authenticate "1" 0, .authenticate "2" 0,
    .authenticate "1234" 0, .authenticate "3" 0,
    .authenticate "4" 0, .authenticate "1234" 0,
    .authenticate "5" 0, .authenticate "6" 0,
    .authenticate "1234" 0, .authenticate "7" 0,
    .authenticate "8" 0, .authenticate "1234" 0,
    .authenticate "9" 0]

/- Nine wrong pins are compared, and no trigger fires. -/
theorem not_few_of_wrongPairs :
    (0 :: times wrongPairs).Pairwise (· ≤ ·) ∧
      ∃ final,
        Run.run step (start pinState 0) wrongPairs =
            some final ∧
          final.triggered = false ∧
          ¬ final.everWrong.card ≤ 8 := by
  have hRun :
      (Run.run step (start pinState 0) wrongPairs).map
          (fun final => (final.triggered, final.everWrong.card)) =
        some (false, 9) := by
    decide +kernel
  refine ⟨by decide +kernel, ?_⟩
  rw [Option.map_eq_some_iff] at hRun
  rcases hRun with ⟨final, hFinal, hEqual⟩
  rw [Prod.mk.injEq] at hEqual
  refine ⟨final, hFinal, hEqual.1, ?_⟩
  rw [hEqual.2]
  decide

end PinHistory

end PlusWallet
