import PlusWallet.Wallet.Balance

/-
  The height of a wallet, and the lock times that are judged
  by it.  An update that marks transactions as unconfirmed
  again raises the height to `TX_UNCONFIRMED`.

  Main declarations:
    * `BRWallet.transactionIsPending`
    * `BRWallet.HeightHistory`, `BRWallet.HeightLaw`
    * `BRWallet.blockHeight_step`
    * `BRWallet.heightLaw_iff_of_run`
-/

namespace PlusWallet

namespace BRWallet

variable {Hash Address : Type}
variable [DecidableEq Hash] [DecidableEq Address]
variable {keys : WalletKeys Address}
variable {wallet next : BRWallet Hash Address}

------------------------------------------------------------
-- Pending Transactions
------------------------------------------------------------

/-
  `BRWalletTransactionIsPending`, with a bound on its
  recursion along the inputs.
-/
def transactionIsPending
    (wallet : BRWallet Hash Address)
    (now : Nat) :
    Nat → BRTransaction Hash → Option Bool
  | 0, _ => none
  | bound + 1, tx =>
      if tx.blockHeight ≠ TX_UNCONFIRMED then some false
      else if selfPending wallet.blockHeight now tx then
        some true
      else
        -- check if any inputs are known to be pending
        tx.inputs.foldlM
          (fun found input =>
            if found then some true
            else
              match wallet.allTx.get input.txHash with
              | some parent =>
                  transactionIsPending wallet now bound parent
              | none => some false)
          false

omit [DecidableEq Address] in
theorem transactionIsPending_of_selfPending
    {tx : BRTransaction Hash}
    {now : Nat}
    (hUnconfirmed : tx.blockHeight = TX_UNCONFIRMED)
    (hPending : selfPending wallet.blockHeight now tx = true)
    (bound : Nat) :
    wallet.transactionIsPending now (bound + 1) tx =
      some true := by
  unfold transactionIsPending
  rw [if_neg (not_not.mpr hUnconfirmed), if_pos hPending]

/- Found invalid or pending by a pass over the list. -/
def Pass.Doubts
    (pass : Pass Hash Address)
    (hash : Hash) : Prop :=
  hash ∈ pass.invalidTx ∨ hash ∈ pass.pendingTx

/- What is in doubt stays in doubt. -/
theorem Pass.Doubts.passTx
    {pass : Pass Hash Address}
    {hash : Hash}
    (hDoubts : pass.Doubts hash)
    (reads : Reads Hash Address)
    (tx : BRTransaction Hash) :
    (passTx reads pass tx).Doubts hash := by
  by_cases hRefused : Refuses pass tx
  · rw [passTx_of_refused reads hRefused]
    exact hDoubts.imp_left (Finset.mem_insert_of_mem ·)
  · by_cases hPostponed : Postpones reads pass tx
    · rw [passTx_of_postponed hRefused hPostponed]
      exact hDoubts.imp_right (Finset.mem_insert_of_mem ·)
    · rcases passTx_of_counted hRefused hPostponed with
        ⟨-, -, -, hInvalid, hPending⟩
      unfold Pass.Doubts
      rw [hInvalid, hPending]
      exact hDoubts

/- An unconfirmed transaction that is locked is in doubt. -/
theorem doubts_of_selfPending
    (reads : Reads Hash Address)
    (pass : Pass Hash Address)
    {tx : BRTransaction Hash}
    (hUnconfirmed : tx.blockHeight = TX_UNCONFIRMED)
    (hPending :
      selfPending reads.blockHeight reads.now tx = true) :
    (passTx reads pass tx).Doubts tx.txHash := by
  by_cases hRefused : Refuses pass tx
  · rw [passTx_of_refused reads hRefused]
    exact Or.inl (Finset.mem_insert_self _ _)
  · rw [passTx_of_postponed hRefused
      ⟨hUnconfirmed, Or.inl hPending⟩]
    exact Or.inr (Finset.mem_insert_self _ _)

theorem doubts_passAll
    (reads : Reads Hash Address)
    {txs : List (BRTransaction Hash)}
    {tx : BRTransaction Hash}
    (hMem : tx ∈ txs)
    (hUnconfirmed : tx.blockHeight = TX_UNCONFIRMED)
    (hPending :
      selfPending reads.blockHeight reads.now tx = true) :
    (passAll reads txs).Doubts tx.txHash := by
  rcases List.append_of_mem hMem with ⟨before, after, rfl⟩
  unfold passAll
  rw [List.foldl_append, List.foldl_cons]
  have hHere :=
    doubts_of_selfPending reads
      (before.foldl (passTx reads) Pass.start) hUnconfirmed
      hPending
  generalize
    passTx reads (before.foldl (passTx reads) Pass.start) tx =
      pass at hHere ⊢
  clear hMem
  induction after generalizing pass with
  | nil => exact hHere
  | cons other after ih =>
      exact ih _ (hHere.passTx reads other)

/- `_BRWalletUpdateBalance` reports what is pending by itself. -/
theorem pending_updateBalance
    {now : Nat}
    {tx : BRTransaction Hash}
    (hListed : tx.txHash ∈ wallet.transactions)
    (hGet : wallet.allTx.get tx.txHash = some tx)
    (hUnconfirmed : tx.blockHeight = TX_UNCONFIRMED)
    (hPending : selfPending wallet.blockHeight now tx = true)
    (hUpdate : wallet.updateBalance keys now = some next)
    (hValid : tx.txHash ∉ next.invalidTx) :
    tx.txHash ∈ next.pendingTx := by
  rcases updateBalance_cases hUpdate with ⟨txs, hTxs, rfl⟩
  have hMem : tx ∈ txs := by
    rcases MapM.mem_of_mem hTxs hListed with
      ⟨other, hThere, hOther⟩
    rw [hGet, Option.some.injEq] at hOther
    rwa [hOther]
  have hDoubts :=
    doubts_passAll (wallet.reads keys now) hMem hUnconfirmed
      hPending
  exact hDoubts.resolve_left hValid

------------------------------------------------------------
-- Heights
------------------------------------------------------------

/- The height that a call leaves in the wallet. -/
def heightAfter
    (height : Nat) : Action Hash → Nat
  | .update _ blockHeight _ _ => max height blockHeight
  | .setUnconfirmedAfter blockHeight _ => blockHeight
  | .register _ _ => height
  | .remove _ _ => height
  | .unusedAddrs _ _ => height

theorem blockHeight_insertTx
    {tx : BRTransaction Hash}
    (hInsert : wallet.insertTx keys tx = some next) :
    next.blockHeight = wallet.blockHeight := by
  rcases insertTx_cases hInsert with ⟨_, _, -, rfl, -, -⟩
  rfl

theorem blockHeight_updateBalance
    {now : Nat}
    (hUpdate : wallet.updateBalance keys now = some next) :
    next.blockHeight = wallet.blockHeight := by
  rcases updateBalance_cases hUpdate with ⟨_, -, rfl⟩
  rfl

omit [DecidableEq Hash] in
theorem blockHeight_unusedAddrs
    {gapLimit : Nat}
    {internal : Bool}
    {addrs : List Address}
    (hCall :
      wallet.unusedAddrs keys gapLimit internal =
        some (addrs, next)) :
    next.blockHeight = wallet.blockHeight := by
  simp only [unusedAddrs, Option.bind_eq_bind,
    Option.bind_eq_some_iff] at hCall
  rcases hCall with ⟨⟨i, addrChain⟩, -, hEqual⟩
  cases hEqual
  unfold setChain
  cases internal <;> dsimp only <;> split_ifs <;> rfl

omit [DecidableEq Hash] in
theorem blockHeight_fillChains
    (hFill : wallet.fillChains keys = some next) :
    next.blockHeight = wallet.blockHeight := by
  simp only [fillChains, Option.bind_eq_bind,
    Option.bind_eq_some_iff] at hFill
  rcases hFill with
    ⟨⟨_, middle⟩, hExternal, ⟨_, last⟩, hInternal, hEqual⟩
  cases hEqual
  exact
    (blockHeight_unusedAddrs hInternal).trans
      (blockHeight_unusedAddrs hExternal)

theorem blockHeight_updateTx
    {blockHeight timestamp : Nat}
    {needsUpdate after : Bool}
    {hash : Hash}
    (hUpdate :
      updateTx keys blockHeight timestamp
          (wallet, needsUpdate) hash =
        some (next, after)) :
    next.blockHeight = wallet.blockHeight := by
  rcases updateTx_cases hUpdate with
    ⟨rfl, -, -⟩ | ⟨tx, -, -, ⟨-, hMoved, -⟩ | ⟨-, -, hMoved⟩⟩
  · rfl
  · rcases hMoved with ⟨-, rfl⟩ | ⟨-, hInsert⟩
    · rfl
    · have hSame := blockHeight_insertTx hInsert
      exact hSame
  · rcases hMoved with ⟨-, rfl⟩ | ⟨-, rfl⟩
    · rfl
    · rfl

/- Only updates and reorganizations move the height. -/
theorem blockHeight_step
    {action : Action Hash}
    (hStep : step keys wallet action = some next) :
    next.blockHeight =
      heightAfter wallet.blockHeight action := by
  cases action with
  | register tx now =>
      rcases registerTransaction_cases hStep with
        ⟨-, rfl⟩ | ⟨-, -, rfl⟩ |
          ⟨-, inserted, updated, hInsert, hUpdate, hFill⟩
      · rfl
      · rfl
      · have hInserted := blockHeight_insertTx hInsert
        exact
          (blockHeight_fillChains hFill).trans
            ((blockHeight_updateBalance hUpdate).trans
              hInserted)
  | remove txHash now =>
      refine
        removeR_induction
          (motive := fun middle =>
            middle.blockHeight = wallet.blockHeight)
          (fun middle after hash hMiddle _ hDrop => ?_) rfl
          hStep
      exact (blockHeight_updateBalance hDrop).trans hMiddle
  | update txHashes blockHeight timestamp now =>
      simp only [step, updateTransactions, Option.bind_eq_bind,
        Option.bind_eq_some_iff] at hStep
      rcases hStep with ⟨⟨middle, needsUpdate⟩, hRounds, hRest⟩
      have hMiddle :
          middle.blockHeight =
            max wallet.blockHeight blockHeight :=
        Run.run_preserves
          (fun state : BRWallet Hash Address × Bool =>
            state.1.blockHeight =
              max wallet.blockHeight blockHeight)
          (fun state hash after hState hRound =>
            (blockHeight_updateTx hRound).trans hState)
          rfl hRounds
      dsimp only at hRest
      split_ifs at hRest
      · exact (blockHeight_updateBalance hRest).trans hMiddle
      · cases hRest
        exact hMiddle
  | setUnconfirmedAfter blockHeight now =>
      rcases setTxUnconfirmedAfter_cases hStep with
        ⟨_, _, -, -, -, ⟨-, rfl⟩ | ⟨-, hUpdate⟩⟩
      · rfl
      · exact blockHeight_updateBalance hUpdate
  | unusedAddrs gapLimit internal =>
      simp only [step, Option.map_eq_some_iff] at hStep
      rcases hStep with ⟨⟨addrs, after⟩, hCall, rfl⟩
      exact blockHeight_unusedAddrs hCall

/- A new wallet is at height zero. -/
theorem blockHeight_new
    {transactions : List (BRTransaction Hash)}
    {now : Nat}
    (hNew : new keys transactions now = some wallet) :
    wallet.blockHeight = 0 := by
  rcases new_cases hNew with
    ⟨added, filled, hAdded, hFilled, hUpdated⟩
  have hStart : added.blockHeight = 0 := by
    refine
      Run.run_preserves
        (fun state : BRWallet Hash Address =>
          state.blockHeight = 0)
        (fun state tx after hState hStep => ?_) rfl hAdded
    rcases addInitial_cases hStep with
      rfl | ⟨-, inserted, hInsert, rfl⟩
    · exact hState
    · exact (blockHeight_insertTx hInsert).trans hState
  rw [blockHeight_updateBalance hUpdated,
    blockHeight_fillChains hFilled, hStart]

------------------------------------------------------------
-- Runs
------------------------------------------------------------

/- A wallet, and the heights that it has been told so far. -/
structure HeightHistory (Hash Address : Type) where
  wallet : BRWallet Hash Address
  seen : List Nat

/- The height that a call tells the wallet, if any. -/
def heightTold : Action Hash → List Nat
  | .update _ blockHeight _ _ => [blockHeight]
  | .setUnconfirmedAfter blockHeight _ => [blockHeight]
  | .register _ _ => []
  | .remove _ _ => []
  | .unusedAddrs _ _ => []

def HeightHistory.step
    (keys : WalletKeys Address)
    (history : HeightHistory Hash Address)
    (action : Action Hash) :
    Option (HeightHistory Hash Address) :=
  (BRWallet.step keys history.wallet action).map fun wallet =>
    { wallet := wallet
      seen := history.seen ++ heightTold action }

/-
  An unconfirmed transaction with a sequence that is not the
  final one, locked up to a height beyond those that were
  seen.  The height of the next block but one is the first
  that the wallet counts as the future.
-/
structure LockedAbove
    (history : HeightHistory Hash Address)
    (tx : BRTransaction Hash) : Prop where
  unconfirmed : tx.blockHeight = TX_UNCONFIRMED
  notFinal :
    ∃ input ∈ tx.inputs, input.sequence.toNat < 2 ^ 32 - 1
  isHeight : tx.lockTime.toNat < TX_MAX_LOCK_HEIGHT
  beyond :
    ∀ height ∈ history.seen, height < TX_UNCONFIRMED →
      height < tx.lockTime.toNat
  notNext :
    tx.lockTime.toNat ≠ history.wallet.blockHeight + 1

/-
  The height of the wallet is that of a block, and what is
  locked above all heights seen is reported as pending.
-/
structure HeightLaw
    (keys : WalletKeys Address)
    (history : HeightHistory Hash Address) : Prop where
  confirmed : history.wallet.blockHeight < TX_UNCONFIRMED
  isPending :
    ∀ tx now bound, LockedAbove history tx →
      history.wallet.transactionIsPending now (bound + 1) tx =
        some true
  updatesPending :
    ∀ tx now next, LockedAbove history tx →
      tx.txHash ∈ history.wallet.transactions →
      history.wallet.allTx.get tx.txHash = some tx →
      history.wallet.updateBalance keys now = some next →
      tx.txHash ∉ next.invalidTx →
        tx.txHash ∈ next.pendingTx

/- The call tells the wallet the height of a block, if any. -/
def TellsConfirmed
    (_ : HeightHistory Hash Address)
    (action : Action Hash) : Prop :=
  ∀ height ∈ heightTold action, height < TX_UNCONFIRMED

/- The wallet is at one of the heights that it was told. -/
def KnownHeight (history : HeightHistory Hash Address) : Prop :=
  history.wallet.blockHeight ∈ history.seen

omit [DecidableEq Hash] [DecidableEq Address] in
/- Above the wallet's height a lock is in the future. -/
theorem selfPending_of_lockedAbove
    {history : HeightHistory Hash Address}
    {tx : BRTransaction Hash}
    (hKnown : KnownHeight history)
    (hConfirmed :
      history.wallet.blockHeight < TX_UNCONFIRMED)
    (hLocked : LockedAbove history tx)
    (now : Nat) :
    selfPending history.wallet.blockHeight now tx = true := by
  have hBeyond := hLocked.beyond _ hKnown hConfirmed
  have hNext := hLocked.notNext
  rcases hLocked.notFinal with ⟨input, hInput, hSequence⟩
  have hHeight := hLocked.isHeight
  have hFuture :
      (history.wallet.blockHeight + 1) % 2 ^ 32 <
        tx.lockTime.toNat := by
    unfold TX_UNCONFIRMED at hConfirmed
    rw [Nat.mod_eq_of_lt (by omega)]
    omega
  unfold selfPending
  rw [Bool.or_eq_true, List.any_eq_true]
  refine Or.inr ⟨input, hInput, ?_⟩
  simp only [Bool.or_eq_true, Bool.and_eq_true,
    decide_eq_true_eq]
  exact Or.inl (Or.inr ⟨⟨hSequence, hHeight⟩, hFuture⟩)

theorem heightLaw_of_confirmed
    {history : HeightHistory Hash Address}
    (hKnown : KnownHeight history)
    (hConfirmed :
      history.wallet.blockHeight < TX_UNCONFIRMED) :
    HeightLaw keys history where
  confirmed := hConfirmed
  isPending := by
    intro tx now bound hLocked
    exact
      transactionIsPending_of_selfPending hLocked.unconfirmed
        (selfPending_of_lockedAbove hKnown hConfirmed hLocked
          now)
        bound
  updatesPending := by
    intro tx now next hLocked hListed hGet hUpdate hValid
    exact
      pending_updateBalance hListed hGet hLocked.unconfirmed
        (selfPending_of_lockedAbove hKnown hConfirmed hLocked
          now)
        hUpdate hValid

theorem knownHeight_step
    {history after : HeightHistory Hash Address}
    {action : Action Hash}
    (hKnown : KnownHeight history)
    (hStep : history.step keys action = some after) :
    KnownHeight after := by
  unfold HeightHistory.step at hStep
  rw [Option.map_eq_some_iff] at hStep
  rcases hStep with ⟨wallet, hWallet, rfl⟩
  unfold KnownHeight at hKnown ⊢
  dsimp only
  rw [blockHeight_step hWallet, List.mem_append]
  cases action with
  | update txHashes blockHeight timestamp now =>
      dsimp only [heightAfter, heightTold]
      rcases max_choice history.wallet.blockHeight blockHeight
        with hOld | hNew
      · rw [hOld]
        exact Or.inl hKnown
      · rw [hNew]
        exact Or.inr (List.mem_singleton_self _)
  | setUnconfirmedAfter blockHeight now =>
      exact Or.inr (List.mem_singleton_self _)
  | register _ _ => exact Or.inl hKnown
  | remove _ _ => exact Or.inl hKnown
  | unusedAddrs _ _ => exact Or.inl hKnown

/- A call keeps the law exactly if the height is a block's. -/
theorem heightLaw_step_iff
    {history after : HeightHistory Hash Address}
    {action : Action Hash}
    (hKnown : KnownHeight history)
    (hLaw : HeightLaw keys history)
    (hStep : history.step keys action = some after) :
    HeightLaw keys after ↔ TellsConfirmed history action := by
  have hAfter := knownHeight_step hKnown hStep
  have hConfirmed := hLaw.confirmed
  have hHeight :
      after.wallet.blockHeight =
        heightAfter history.wallet.blockHeight action := by
    unfold HeightHistory.step at hStep
    rw [Option.map_eq_some_iff] at hStep
    rcases hStep with ⟨wallet, hWallet, rfl⟩
    exact blockHeight_step hWallet
  have hIff :
      after.wallet.blockHeight < TX_UNCONFIRMED ↔
        TellsConfirmed history action := by
    rw [hHeight]
    unfold TellsConfirmed
    cases action with
    | update txHashes blockHeight timestamp now =>
        simp [heightAfter, heightTold, hConfirmed]
    | setUnconfirmedAfter blockHeight now =>
        simp [heightAfter, heightTold]
    | register _ _ =>
        simp [heightAfter, heightTold, hConfirmed]
    | remove _ _ =>
        simp [heightAfter, heightTold, hConfirmed]
    | unusedAddrs _ _ =>
        simp [heightAfter, heightTold, hConfirmed]
  constructor
  · intro hThere
    exact hIff.mp hThere.confirmed
  · intro hTells
    exact heightLaw_of_confirmed hAfter (hIff.mpr hTells)

/-
  The law holds throughout a run exactly if no call tells the
  wallet `TX_UNCONFIRMED` as a height, or more.
-/
theorem heightLaw_iff_of_run
    {transactions : List (BRTransaction Hash)}
    {now : Nat}
    {actions : List (Action Hash)}
    {final : HeightHistory Hash Address}
    (hNew : new keys transactions now = some wallet)
    (hRun :
      Run.run (HeightHistory.step keys) ⟨wallet, [0]⟩ actions =
        some final) :
    Run.Throughout (HeightHistory.step keys) (HeightLaw keys)
        ⟨wallet, [0]⟩ actions ↔
      Run.Meets (HeightHistory.step keys) TellsConfirmed
        ⟨wallet, [0]⟩ actions := by
  have hZero := blockHeight_new hNew
  have hKnown :
      KnownHeight
        (⟨wallet, [0]⟩ : HeightHistory Hash Address) := by
    unfold KnownHeight
    rw [hZero]
    exact List.mem_singleton_self 0
  apply
    Run.throughout_iff_meets
      (fun _ _ _ hState hStep => knownHeight_step hState hStep)
      (fun _ _ _ hState hLaw hStep =>
        heightLaw_step_iff hState hLaw hStep)
      hKnown _ hRun
  apply heightLaw_of_confirmed hKnown
  rw [hZero]
  decide

theorem heightLaw_iff_of_run_strange :
    Run.Throughout (HeightHistory.step indexKeys)
        (HeightLaw indexKeys) ⟨strangeWallet, [0]⟩
        [.update [1] 5 7 0] ↔
      Run.Meets (HeightHistory.step indexKeys) TellsConfirmed
        ⟨strangeWallet, [0]⟩ [.update [1] 5 7 0] := by
  have hRun :
      (Run.run (HeightHistory.step indexKeys)
        ⟨strangeWallet, [0]⟩ [.update [1] 5 7 0]).isSome := by
    decide +kernel
  rcases Option.isSome_iff_exists.mp hRun with ⟨final, hFinal⟩
  exact heightLaw_iff_of_run new_strangeList hFinal

/- A transaction is marked as unconfirmed, at a later time. -/
theorem strange_not_heightLaw :
    ¬ ∀ final,
      Run.run (HeightHistory.step indexKeys)
          ⟨strangeWallet, [0]⟩ [.update [1] TX_UNCONFIRMED 7 0] =
        some final →
          HeightLaw indexKeys final := by
  intro hAll
  have hRun :
      (Run.run (HeightHistory.step indexKeys)
          ⟨strangeWallet, [0]⟩
          [.update [1] TX_UNCONFIRMED 7 0]).map
            (fun final => final.wallet.blockHeight) =
        some TX_UNCONFIRMED := by
    decide +kernel
  rw [Option.map_eq_some_iff] at hRun
  rcases hRun with ⟨final, hFinal, hHeight⟩
  have hConfirmed := (hAll final hFinal).confirmed
  rw [hHeight] at hConfirmed
  exact absurd hConfirmed (lt_irrefl _)

end BRWallet

end PlusWallet
