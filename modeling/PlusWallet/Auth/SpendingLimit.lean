import PlusWallet.Auth.WalletManager

/-
  When what a wallet signs by biometrics stays in the limit.

  The keychain item is an absolute figure; what it allows a
  wallet is its distance from the wallet's `totalSent`.

  Main declarations:
    * `SpendState.le_of_netSpend`
    * `SpendHistory.Allows`, `SpendHistory.InLimit`
    * `SpendHistory.signed_le_of_run`
-/

namespace PlusWallet

open Run

variable {Id Hash Address : Type}
variable [DecidableEq Id]
variable [DecidableEq Hash] [DecidableEq Address]

------------------------------------------------------------
-- The Test of the Limit
------------------------------------------------------------

omit [DecidableEq Id] in
/- What passes the test leaves `totalSent` below the item. -/
theorem SpendState.le_of_netSpend
    {keys : Id → WalletKeys Address}
    {state : SpendState Id Hash Address}
    {id : Id}
    {tx : BRTransaction Hash}
    {net : UInt64}
    (hNet : state.netSpend keys id tx = some (some net)) :
    ∃ wallet, state.wallets id = some wallet ∧
      net.toNat + wallet.totalSent.toNat ≤
        state.spendLimit.getD 0 := by
  unfold SpendState.netSpend at hNet
  rcases hWallet : state.wallets id with _ | wallet
  · rw [hWallet] at hNet
    cases hNet
  · rw [hWallet] at hNet
    refine ⟨wallet, rfl, ?_⟩
    dsimp only at hNet
    rw [Option.bind_eq_bind, Option.bind_eq_some_iff] at hNet
    rcases hNet with ⟨difference, -, hNet⟩
    rw [Option.bind_eq_some_iff] at hNet
    rcases hNet with ⟨total, hTotal, hNet⟩
    split_ifs at hNet with hTest
    · cases hNet
      unfold trapAdd at hTotal
      split_ifs at hTotal with hFits
      cases hTotal
      rwa [UInt64.toNat_add, Nat.mod_eq_of_lt hFits] at hTest
    · cases hNet

namespace SpendHistory

------------------------------------------------------------
-- Condition and Invariant
------------------------------------------------------------

/-
  A wallet that is asked for a biometric signature has no other
  prompt open, and the item is no further above its `totalSent`
  than the limit less what it has signed: everything signed has
  been counted, and the item came from a `totalSent` that was
  not above its own.
-/
def Allows
    (limit : UInt64)
    (history : SpendHistory Id Hash Address) :
    SpendAction Id Hash → Prop
  | .requestBiometrics id _ =>
      (∀ prompt ∈ history.prompts, prompt.id ≠ id) ∧
        ∀ wallet, history.state.wallets id = some wallet →
          history.state.spendLimit.getD 0 +
              history.signed id ≤
            limit.toNat + wallet.totalSent.toNat
  | _ => True

/-
  What is signed is in the limit, also with the one prompt that
  a wallet may have open.
-/
structure InLimit
    (limit : UInt64)
    (history : SpendHistory Id Hash Address) : Prop where
  signed : ∀ id, history.signed id ≤ limit.toNat
  prompts :
    ∀ prompt ∈ history.prompts,
      history.signed prompt.id + prompt.net.toNat ≤
        limit.toNat
  single : (history.prompts.map Prompt.id).Nodup

variable {limit : UInt64}
variable {keys : Id → WalletKeys Address}
variable {history next : SpendHistory Id Hash Address}

omit [DecidableEq Id] [DecidableEq Hash]
  [DecidableEq Address] in
/- Nothing signed is in the limit. -/
theorem InLimit.restart
    (hLimit : InLimit limit history)
    (state : SpendState Id Hash Address) :
    InLimit limit
      { history with
        state := state
        signed := fun _ => 0 } where
  signed := fun _ => Nat.zero_le _
  prompts := by
    intro prompt hMem
    have hPrompt := hLimit.prompts prompt hMem
    dsimp only
    omega
  single := hLimit.single

omit [DecidableEq Id] [DecidableEq Hash]
  [DecidableEq Address] in
theorem InLimit.authenticate
    (hLimit : InLimit limit history)
    {id : Id}
    {success : Bool}
    (hStep : history.authenticate id success = some next) :
    InLimit limit next := by
  unfold SpendHistory.authenticate at hStep
  split_ifs at hStep with hSuccess
  · rw [Option.bind_eq_bind, Option.bind_eq_some_iff] at hStep
    rcases hStep with ⟨state, -, hStep⟩
    cases hStep
    exact hLimit.restart state
  · cases hStep
    exact hLimit

theorem InLimit.requestBiometrics
    (hLimit : InLimit limit history)
    {id : Id}
    {tx : BRTransaction Hash}
    (hAllows : history.Allows limit (.requestBiometrics id tx))
    (hStep :
      step keys limit history (.requestBiometrics id tx) =
        some next) :
    InLimit limit next := by
  unfold step at hStep
  dsimp only at hStep
  rw [Option.bind_eq_bind, Option.bind_eq_some_iff] at hStep
  rcases hStep with ⟨_ | net, hNet, hStep⟩
  · cases hStep
    exact hLimit
  · cases hStep
    rcases hAllows with ⟨hOther, hAllowance⟩
    rcases SpendState.le_of_netSpend hNet with
      ⟨wallet, hWallet, hTest⟩
    have hRoom := hAllowance wallet hWallet
    refine ⟨hLimit.signed, ?_, ?_⟩
    · intro prompt hMem
      rcases List.mem_append.mp hMem with hMem | hMem
      · exact hLimit.prompts prompt hMem
      · rw [List.mem_singleton.mp hMem]
        dsimp only
        omega
    · rw [List.map_append, List.nodup_append]
      refine ⟨hLimit.single, List.nodup_singleton _, ?_⟩
      intro other hMem last hLast
      rcases List.mem_map.mp hMem with ⟨prompt, hPrompt, rfl⟩
      rw [List.mem_singleton.mp hLast]
      exact hOther prompt hPrompt

theorem InLimit.answerBiometrics
    (hLimit : InLimit limit history)
    {i : Nat}
    {success signed : Bool}
    (hStep :
      step keys limit history
          (.answerBiometrics i success signed) =
        some next) :
    InLimit limit next := by
  unfold step at hStep
  dsimp only at hStep
  rw [Option.bind_eq_bind, Option.bind_eq_some_iff] at hStep
  rcases hStep with ⟨prompt, hAt, hStep⟩
  have hMem := List.mem_of_getElem? hAt
  have hSingle :
      ((history.prompts.eraseIdx i).map Prompt.id).Nodup :=
    hLimit.single.sublist
      ((List.eraseIdx_sublist _ _).map _)
  have hBefore :
      ∀ other ∈ history.prompts.eraseIdx i,
        other ∈ history.prompts :=
    fun other => List.mem_of_mem_eraseIdx
  split_ifs at hStep with hBoth
  · cases hStep
    have hPrompt := hLimit.prompts prompt hMem
    -- no other prompt of this wallet is left
    have hOther :
        ∀ other ∈ history.prompts.eraseIdx i,
          other.id ≠ prompt.id := by
      intro other hOther hSame
      rcases List.mem_eraseIdx_iff_getElem?.mp hOther with
        ⟨j, hNe, hOtherAt⟩
      have hInside : j < (history.prompts.map Prompt.id).length := by
        rw [List.length_map]
        exact (List.getElem?_eq_some_iff.mp hOtherAt).1
      apply hNe
      apply (List.getElem?_inj hInside hLimit.single).mp
      rw [List.getElem?_map, List.getElem?_map, hOtherAt, hAt]
      exact congrArg some hSame
    refine ⟨?_, ?_, hSingle⟩
    · intro id
      by_cases hId : id = prompt.id
      · rw [hId]
        dsimp only
        rwa [Function.update_self]
      · dsimp only
        rw [Function.update_of_ne hId]
        exact hLimit.signed id
    · intro other hOtherMem
      dsimp only
      rw [Function.update_of_ne (hOther other hOtherMem)]
      exact hLimit.prompts other (hBefore other hOtherMem)
  · cases hStep
    exact ⟨hLimit.signed,
      fun other hOther =>
        hLimit.prompts other (hBefore other hOther), hSingle⟩

/- A step that is allowed keeps every wallet in the limit. -/
theorem inLimit_step
    (hLimit : InLimit limit history)
    {action : SpendAction Id Hash}
    (hAllows : history.Allows limit action)
    (hStep : step keys limit history action = some next) :
    InLimit limit next := by
  cases action with
  | authenticate id success => exact hLimit.authenticate hStep
  | setSpendingLimit id =>
      unfold step at hStep
      dsimp only at hStep
      rw [Option.bind_eq_bind, Option.bind_eq_some_iff] at hStep
      rcases hStep with ⟨state, -, hStep⟩
      cases hStep
      split_ifs
      · exact hLimit.restart state
      · exact ⟨hLimit.signed, hLimit.prompts, hLimit.single⟩
  | signByPin id tx success => exact hLimit.authenticate hStep
  | requestBiometrics id tx =>
      exact hLimit.requestBiometrics hAllows hStep
  | answerBiometrics i success signed =>
      exact hLimit.answerBiometrics hStep
  | publish id tx =>
      cases hStep
      exact hLimit
  | callWallet id action =>
      unfold step at hStep
      dsimp only at hStep
      rw [Option.bind_eq_bind, Option.bind_eq_some_iff] at hStep
      rcases hStep with ⟨wallet, -, hStep⟩
      rw [Option.bind_eq_some_iff] at hStep
      rcases hStep with ⟨after, -, hStep⟩
      cases hStep
      exact ⟨hLimit.signed, hLimit.prompts, hLimit.single⟩

/- Managers of which none has been asked for a signature. -/
def start
    (state : SpendState Id Hash Address) :
    SpendHistory Id Hash Address where
  state := state
  prompts := []
  signed := fun _ => 0

/-
  In a run of allowed calls, no wallet signs more than the limit
  by biometrics between two authentications or limit changes.
-/
theorem signed_le_of_run
    (keys : Id → WalletKeys Address)
    (limit : UInt64)
    (state : SpendState Id Hash Address)
    {actions : List (SpendAction Id Hash)}
    (hMeets :
      Meets (step keys limit) (Allows limit) (start state)
        actions)
    {final : SpendHistory Id Hash Address}
    (hRun :
      run (step keys limit) (start state) actions =
        some final)
    (id : Id) :
    final.signed id ≤ limit.toNat := by
  have hStart : InLimit limit (start state) :=
    ⟨fun _ => Nat.zero_le _, by simp [start],
      List.nodup_nil⟩
  have hLimit :=
    run_invariant (InLimit limit)
      (fun _ _ _ hLimit hAllows hStep =>
        inLimit_step hLimit hAllows hStep)
      hStart hMeets hRun
  exact hLimit.signed id

------------------------------------------------------------
-- Two Coins
------------------------------------------------------------

/- One address, and scripts that all pay it. -/
def oneAddress : WalletKeys Nat where
  addressOf := fun _ => some 7
  derive := fun _ _ => none
  moved := fun _ _ _ => false

/- A transaction with two coins for the address. -/
def funding : BRTransaction Nat where
  txHash := 1
  version := 1
  inputs := []
  outputs := [⟨600, []⟩, ⟨600, []⟩]
  lockTime := 0
  blockHeight := 100
  timestamp := 0

/- A wallet with two coins, and a total of what it has sent. -/
def twoCoins (totalSent : UInt64) : BRWallet Nat Nat :=
  { BRWallet.blank 1000 with
    balance := 1200
    totalSent := totalSent
    transactions := [1]
    allTx := KeyedSet.empty.add funding
    allAddrs := {7} }

/- A transaction that spends some of the coins. -/
def spending
    (hash : Nat)
    (coins : List UInt32) : BRTransaction Nat where
  txHash := hash
  version := 1
  inputs :=
    coins.map fun n => ⟨1, n, 600, [], some [], TXIN_SEQUENCE⟩
  outputs := []
  lockTime := 0
  blockHeight := TX_UNCONFIRMED
  timestamp := 0

/- Managers of two wallets that have sent different amounts. -/
def twoManagers : SpendState Bool Nat Nat where
  wallets := fun id =>
    some (twoCoins (if id then 5000 else 0))
  spendLimit := none
  spendLimitAmount := some 1000

theorem signed_le_of_one_spend :
    ∃ final,
      run (step (fun _ => oneAddress) 1000) (start twoManagers)
          [.authenticate false true,
            .requestBiometrics false (spending 2 [0]),
            .answerBiometrics 0 true true] = some final ∧
        final.signed false = 600 ∧
        final.signed false ≤ 1000 := by
  refine ⟨_, rfl, rfl, ?_⟩
  refine
    @signed_le_of_run Bool Nat Nat _ _ _ (fun _ => oneAddress)
      1000 twoManagers
      [.authenticate false true,
        .requestBiometrics false (spending 2 [0]),
        .answerBiometrics 0 true true] ?_ _ rfl false
  refine ⟨trivial, ?_⟩
  rintro _ ⟨⟩
  refine ⟨⟨by simp [start], ?_⟩, ?_⟩
  · rintro _ ⟨⟩
    decide
  · rintro _ ⟨⟩
    refine ⟨trivial, ?_⟩
    rintro _ ⟨⟩
    trivial

/-
  Two coins are signed one after the other while `totalSent` does
  not move, or in one transaction after a wallet that has sent
  more has authenticated.
-/
theorem not_signed_le :
    (∃ final,
      run (step (fun _ => oneAddress) 1000) (start twoManagers)
          [.authenticate false true,
            .requestBiometrics false (spending 2 [0]),
            .answerBiometrics 0 true true,
            .requestBiometrics false (spending 3 [1]),
            .answerBiometrics 0 true true] = some final ∧
        final.signed false = 1200) ∧
    (∃ final,
      run (step (fun _ => oneAddress) 1000) (start twoManagers)
          [.authenticate true true,
            .requestBiometrics false (spending 2 [0, 1]),
            .answerBiometrics 0 true true] = some final ∧
        final.signed false = 1200) ∧
    ¬ ∀ (actions : List (SpendAction Bool Nat))
        (final : SpendHistory Bool Nat Nat),
        run (step (fun _ => oneAddress) 1000)
            (start twoManagers) actions = some final →
          ∀ id, final.signed id ≤ 1000 := by
  refine ⟨⟨_, rfl, rfl⟩, ⟨_, rfl, rfl⟩, ?_⟩
  intro hAll
  have hSigned :=
    hAll
      [.authenticate true true,
        .requestBiometrics false (spending 2 [0, 1]),
        .answerBiometrics 0 true true] _ rfl false
  exact absurd hSigned (by decide)

end SpendHistory

end PlusWallet
