import PlusWallet.Wallet.Steps

/-
  The callbacks that the calls of `BRWallet.c` issue, in their
  order, beside what the calls do to the wallet.  The balance
  that `balanceChanged` is given and the flags that `txDeleted`
  is given are left out.

  Main declarations:
    * `TxEvent`
    * `BRWallet.notify`
    * `BRWallet.map_fst_notify`
-/

namespace PlusWallet

------------------------------------------------------------
-- Callbacks
------------------------------------------------------------

inductive TxEvent (Hash : Type) where
  | txAdded (tx : BRTransaction Hash)
  | txUpdated
      (txHashes : List Hash)
      (blockHeight timestamp : Nat)
  | txDeleted (txHash : Hash)

namespace BRWallet

variable {Hash Address : Type}
variable [DecidableEq Hash] [DecidableEq Address]

/- `BRWalletRegisterTransaction` adds the transaction or not. -/
def registerEvents
    (keys : WalletKeys Address)
    (wallet : BRWallet Hash Address)
    (tx : BRTransaction Hash) : List (TxEvent Hash) :=
  if tx.isSigned && (wallet.allTx.get tx.txHash).isNone &&
      wallet.containsTx keys tx then
    [.txAdded tx]
  else []

/- `removeR` with the callbacks of all the calls in it. -/
def removeNotifyR
    (keys : WalletKeys Address)
    (now : Nat) :
    Nat → BRWallet Hash Address × List (TxEvent Hash) → Hash →
      Option (BRWallet Hash Address × List (TxEvent Hash))
  | 0, _, _ => none
  | bound + 1, (wallet, events), txHash =>
      match wallet.allTx.get txHash with
      | none => some (wallet, events)
      | some tx => do
          let hashes ←
            wallet.dependents tx wallet.transactions.reverse
          if hashes = [] then do
            let wallet ←
              updateBalance keys
                { wallet with
                  transactions :=
                    eraseLast wallet.transactions txHash }
                now
            some (wallet, events ++ [.txDeleted txHash])
          else do
            let state ←
              hashes.reverse.foldlM
                (removeNotifyR keys now bound) (wallet, events)
            removeNotifyR keys now bound state txHash

/-
  Whether a round of the loop of `BRWalletUpdateTransactions`
  adds its hash to those that `txUpdated` is given.
-/
def isNamed
    (keys : WalletKeys Address)
    (blockHeight timestamp : Nat)
    (wallet : BRWallet Hash Address)
    (txHash : Hash) : Bool :=
  match wallet.allTx.get txHash with
  | none => false
  | some tx =>
      if tx.blockHeight = blockHeight ∧
          tx.timestamp = timestamp then false
      else
        let tx := moveTx tx blockHeight timestamp
        { wallet with allTx := wallet.allTx.add tx }.containsTx
          keys tx

/- One round of the loop, with the hashes that it collects. -/
def updateNotifyTx
    (keys : WalletKeys Address)
    (blockHeight timestamp : Nat)
    (state : (BRWallet Hash Address × Bool) × List Hash)
    (txHash : Hash) :
    Option ((BRWallet Hash Address × Bool) × List Hash) := do
  let after ←
    updateTx keys blockHeight timestamp state.1 txHash
  some
    (after,
      if isNamed keys blockHeight timestamp state.1.1 txHash then
        state.2 ++ [txHash]
      else state.2)

/- The call of `txUpdated`, if there are hashes for it. -/
def updateEvents
    (hashes : List Hash)
    (blockHeight timestamp : Nat) : List (TxEvent Hash) :=
  if hashes = [] then []
  else [.txUpdated hashes blockHeight timestamp]

/- `BRWalletUpdateTransactions` with its callback -/
def updateNotify
    (keys : WalletKeys Address)
    (wallet : BRWallet Hash Address)
    (txHashes : List Hash)
    (blockHeight timestamp : Nat)
    (now : Nat) :
    Option (BRWallet Hash Address × List (TxEvent Hash)) := do
  let wallet :=
    { wallet with
      blockHeight := max wallet.blockHeight blockHeight }
  let ((wallet, needsUpdate), hashes) ←
    txHashes.foldlM (updateNotifyTx keys blockHeight timestamp)
      ((wallet, false), [])
  let wallet ←
    if needsUpdate then wallet.updateBalance keys now
    else some wallet
  some (wallet, updateEvents hashes blockHeight timestamp)

/- One call with the callbacks that it issues. -/
def notify
    (keys : WalletKeys Address)
    (wallet : BRWallet Hash Address) :
    Action Hash →
      Option (BRWallet Hash Address × List (TxEvent Hash))
  | .register tx now => do
      let next ← wallet.registerTransaction keys tx now
      some (next, wallet.registerEvents keys tx)
  | .remove txHash now =>
      removeNotifyR keys now (wallet.transactions.length + 2)
        (wallet, []) txHash
  | .update txHashes blockHeight timestamp now =>
      wallet.updateNotify keys txHashes blockHeight timestamp
        now
  | .setUnconfirmedAfter blockHeight now => do
      let hashes ←
        wallet.suffixAbove blockHeight
          wallet.transactions.reverse
      let next ←
        wallet.setTxUnconfirmedAfter keys blockHeight now
      some (next, updateEvents hashes.reverse TX_UNCONFIRMED 0)
  | .unusedAddrs gapLimit internal => do
      let (_, next) ←
        wallet.unusedAddrs keys gapLimit internal
      some (next, [])

------------------------------------------------------------
-- The Calls Themselves
------------------------------------------------------------

theorem map_fst_removeNotifyR
    (keys : WalletKeys Address)
    (now bound : Nat)
    (state : BRWallet Hash Address × List (TxEvent Hash))
    (txHash : Hash) :
    (removeNotifyR keys now bound state txHash).map Prod.fst =
      removeR keys now bound state.1 txHash := by
  induction bound generalizing state txHash with
  | zero => rfl
  | succ bound ih =>
      have hFold :
          ∀ (hashes : List Hash)
            (state :
              BRWallet Hash Address × List (TxEvent Hash)),
            (hashes.foldlM (removeNotifyR keys now bound)
                state).map Prod.fst =
              hashes.foldlM (removeR keys now bound)
                state.1 := by
        intro hashes
        induction hashes with
        | nil => exact fun state => rfl
        | cons hash hashes ihHashes =>
            intro state
            rw [List.foldlM_cons, List.foldlM_cons, ← ih]
            rcases removeNotifyR keys now bound state hash with
              _ | next
            · rfl
            · exact ihHashes next
      rcases state with ⟨wallet, events⟩
      unfold removeNotifyR removeR
      dsimp only
      cases wallet.allTx.get txHash with
      | none => rfl
      | some tx =>
          dsimp only
          rcases wallet.dependents tx
              wallet.transactions.reverse with _ | hashes
          · rfl
          · simp only [Option.bind_eq_bind, Option.bind_some]
            by_cases hNone : hashes = []
            · rw [if_pos hNone, if_pos hNone]
              rcases updateBalance keys
                  { wallet with
                    transactions :=
                      eraseLast wallet.transactions txHash }
                  now with _ | next
              · rfl
              · rfl
            · rw [if_neg hNone, if_neg hNone,
                ← hFold hashes.reverse (wallet, events)]
              rcases hashes.reverse.foldlM
                  (removeNotifyR keys now bound)
                  (wallet, events) with _ | next
              · rfl
              · exact ih next txHash

theorem map_fst_updateNotifyTx
    (keys : WalletKeys Address)
    (blockHeight timestamp : Nat)
    (txHashes : List Hash)
    (state : (BRWallet Hash Address × Bool) × List Hash) :
    (txHashes.foldlM
        (updateNotifyTx keys blockHeight timestamp)
        state).map Prod.fst =
      txHashes.foldlM (updateTx keys blockHeight timestamp)
        state.1 := by
  induction txHashes generalizing state with
  | nil => rfl
  | cons hash txHashes ih =>
      rw [List.foldlM_cons, List.foldlM_cons]
      unfold updateNotifyTx
      rcases updateTx keys blockHeight timestamp state.1 hash
        with _ | next
      · rfl
      · exact ih _

/- The callbacks do not change what a call does. -/
theorem map_fst_notify
    (keys : WalletKeys Address)
    (wallet : BRWallet Hash Address)
    (action : Action Hash) :
    (notify keys wallet action).map Prod.fst =
      step keys wallet action := by
  cases action with
  | register tx now =>
      unfold notify step
      dsimp only
      rcases wallet.registerTransaction keys tx now with
        _ | next
      · rfl
      · rfl
  | remove txHash now =>
      exact map_fst_removeNotifyR keys now _ (wallet, []) txHash
  | update txHashes blockHeight timestamp now =>
      have hFold :=
        map_fst_updateNotifyTx keys blockHeight timestamp
          txHashes
          (({ wallet with
              blockHeight :=
                max wallet.blockHeight blockHeight }, false), [])
      unfold notify step updateNotify updateTransactions
      dsimp only at hFold ⊢
      rw [← hFold]
      rcases txHashes.foldlM
          (updateNotifyTx keys blockHeight timestamp)
          (({ wallet with
              blockHeight :=
                max wallet.blockHeight blockHeight }, false), [])
        with _ | ⟨⟨next, needsUpdate⟩, hashes⟩
      · rfl
      · simp only [Option.map_some, Option.bind_eq_bind,
          Option.bind_some]
        split_ifs
        · rcases next.updateBalance keys now with _ | last
          · rfl
          · rfl
        · rfl
  | setUnconfirmedAfter blockHeight now =>
      unfold notify step setTxUnconfirmedAfter
      have hSame :
          suffixAbove
              { wallet with blockHeight := blockHeight }
              blockHeight wallet.transactions.reverse =
            wallet.suffixAbove blockHeight
              wallet.transactions.reverse := by
        rw [suffixAbove_eq, suffixAbove_eq]
      dsimp only
      rw [hSame]
      rcases wallet.suffixAbove blockHeight
          wallet.transactions.reverse with _ | hashes
      · rfl
      · simp only [Option.bind_eq_bind, Option.bind_some]
        split_ifs
        · rfl
        · rcases updateBalance keys _ now with _ | next
          · rfl
          · rfl
  | unusedAddrs gapLimit internal =>
      unfold notify step
      dsimp only
      rcases wallet.unusedAddrs keys gapLimit internal with
        _ | ⟨addrs, next⟩
      · rfl
      · rfl

------------------------------------------------------------
-- Removing
------------------------------------------------------------

/- Each entry that removing drops is told by one callback. -/
theorem removeNotifyR_induction
    {keys : WalletKeys Address}
    {now : Nat}
    {motive :
      BRWallet Hash Address × List (TxEvent Hash) → Prop}
    (hDrop :
      ∀ wallet next events hash, motive (wallet, events) →
        updateBalance keys
            { wallet with
              transactions :=
                eraseLast wallet.transactions hash }
            now =
          some next →
        motive (next, events ++ [.txDeleted hash]))
    {bound : Nat}
    {hash : Hash}
    {state after : BRWallet Hash Address × List (TxEvent Hash)}
    (hState : motive state)
    (hRemove :
      removeNotifyR keys now bound state hash = some after) :
    motive after := by
  induction bound generalizing state hash after with
  | zero => cases hRemove
  | succ bound ih =>
      rcases state with ⟨wallet, events⟩
      unfold removeNotifyR at hRemove
      cases hTx : wallet.allTx.get hash with
      | none =>
          rw [hTx] at hRemove
          cases hRemove
          exact hState
      | some tx =>
          rw [hTx] at hRemove
          simp only [Option.bind_eq_bind,
            Option.bind_eq_some_iff] at hRemove
          rcases hRemove with ⟨hashes, -, hRest⟩
          split_ifs at hRest with hNone
          · rw [Option.bind_eq_some_iff] at hRest
            rcases hRest with ⟨next, hUpdate, hEqual⟩
            cases hEqual
            exact hDrop wallet next events hash hState hUpdate
          · rw [Option.bind_eq_some_iff] at hRest
            rcases hRest with ⟨middle, hDependents, hSelf⟩
            apply ih _ hSelf
            exact
              Run.run_preserves motive
                (fun state action after hState hStep =>
                  ih hState hStep)
                hState hDependents

end BRWallet

end PlusWallet
