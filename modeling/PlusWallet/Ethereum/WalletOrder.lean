import PlusWallet.Ethereum.BREthereumWallet
import PlusWallet.Library.Run

/-
  The order of the transactions of a wallet: when it is kept by
  a step, and so by a run.

  Main declarations:
    * `Ethereum.orderKey`, `Ethereum.transactionCompare_lt_iff`
    * `Ethereum.WalletHistory`, `Ethereum.Ordered`
    * `Ethereum.InPlace`, `Ethereum.ordered_step_iff`
    * `Ethereum.wallet_law`
-/

namespace PlusWallet

open KeyedOrder Bytes

namespace Ethereum

------------------------------------------------------------
-- Comparison
------------------------------------------------------------

/- Blocked ones come first, by their place in the chain. -/
def orderKey
    (transaction : WalletTransaction) : ℕ ×ₗ (ℕ ×ₗ ℕ) :=
  match transaction.state with
  | .blocked _ number _ index =>
      toLex (0, toLex (number.toNat, index.toNat))
  | _ => toLex (1, toLex (transaction.nonce.toNat, 0))

theorem transactionCompare_lt_iff
    (t1 t2 : WalletTransaction) :
    transactionCompare t1 t2 = .lt ↔
      orderKey t1 < orderKey t2 := by
  rcases t1 with ⟨_, nonce1, _, state1⟩
  rcases t2 with ⟨_, nonce2, _, state2⟩
  cases state1 <;> cases state2 <;>
    simp only [transactionCompare, orderKey,
      Prod.Lex.toLex_lt_toLex, UInt64.lt_iff_toNat_lt] <;>
    grind

theorem transactionCompare_ne_lt_iff
    (t1 t2 : WalletTransaction) :
    transactionCompare t1 t2 ≠ .lt ↔
      orderKey t2 ≤ orderKey t1 := by
  rw [Ne, transactionCompare_lt_iff, not_lt]

/- The comparison is a strict weak order. -/
theorem transactionCompare_strictWeakOrder :
    IsStrictWeakOrder WalletTransaction fun t1 t2 =>
      transactionCompare t1 t2 = .lt where
  irrefl := by
    intro t
    rw [transactionCompare_lt_iff]
    exact lt_irrefl _
  trans := by
    intro t1 t2 t3
    simp only [transactionCompare_lt_iff]
    exact lt_trans
  incomp_trans := by
    intro t1 t2 t3
    simp only [transactionCompare_lt_iff, not_lt]
    rintro ⟨hFirst, hSecond⟩ ⟨hThird, hFourth⟩
    exact ⟨hThird.trans hFirst, hSecond.trans hFourth⟩

------------------------------------------------------------
-- Insertion
------------------------------------------------------------

/- The key behind a pointer -/
def keyOf
    (memory : TransactionMemory)
    (transaction : TransactionPointer) : ℕ ×ₗ (ℕ ×ₗ ℕ) :=
  orderKey (memory transaction)

/- An index within the front does not see the end. -/
theorem insertionIndex_append
    (memory : TransactionMemory)
    (transactions : List TransactionPointer)
    (last transaction : TransactionPointer)
    {index : Nat}
    (hIndex : index ≤ transactions.length) :
    insertionIndex memory (transactions ++ [last]) transaction
        index =
      insertionIndex memory transactions transaction index := by
  induction index with
  | zero => rfl
  | succ index ih =>
      unfold insertionIndex
      rw [List.getElem?_append_left hIndex,
        ih (Nat.le_of_succ_le hIndex)]

theorem insertionIndex_le
    (memory : TransactionMemory)
    (transactions : List TransactionPointer)
    (transaction : TransactionPointer)
    (index : Nat) :
    insertionIndex memory transactions transaction index ≤
      index := by
  induction index with
  | zero => exact Nat.le_refl 0
  | succ index ih =>
      unfold insertionIndex
      split
      · exact Nat.le_refl _
      · split_ifs
        · exact Nat.le_refl _
        · exact Nat.le_succ_of_le ih

/- The loop inserts behind the last one that is not greater. -/
theorem walletInsertTransactionSorted_eq
    (memory : TransactionMemory)
    (transactions : List TransactionPointer)
    (transaction : TransactionPointer) :
    walletInsertTransactionSorted memory transactions
        transaction =
      insertLast (keyOf memory) transactions transaction := by
  induction transactions using List.reverseRecOn with
  | nil => rfl
  | append_singleton transactions last ih =>
      have hEnd :
          (transactions ++ [last])[transactions.length]? =
            some last := by
        rw [List.getElem?_append_right (Nat.le_refl _),
          Nat.sub_self]
        rfl
      have hIndex :=
        insertionIndex_le memory transactions transaction
          transactions.length
      unfold walletInsertTransactionSorted at ih ⊢
      rw [insertLast_append, List.length_append,
        List.length_singleton]
      unfold insertionIndex
      rw [hEnd]
      dsimp only at ih ⊢
      unfold keyOf
      by_cases hLast :
          transactionCompare (memory transaction)
            (memory last) ≠ .lt
      · rw [if_pos hLast,
          if_pos ((transactionCompare_ne_lt_iff _ _).mp hLast),
          List.take_of_length_le (by simp),
          List.drop_of_length_le (by simp), List.append_assoc]
        rfl
      · have hGreater :
            ¬ orderKey (memory last) ≤
              orderKey (memory transaction) := fun hLe =>
          hLast ((transactionCompare_ne_lt_iff _ _).mpr hLe)
        rw [if_neg hLast, if_neg hGreater,
          insertionIndex_append memory transactions last
            transaction (Nat.le_refl _),
          List.take_append_of_le_length hIndex,
          List.drop_append_of_le_length hIndex]
        unfold keyOf at ih
        rw [← ih, List.append_assoc]
        rfl

------------------------------------------------------------
-- Histories
------------------------------------------------------------

/- A wallet, and the transactions that it was given to hold. -/
structure WalletHistory where
  wallet : BREthereumWallet
  handled : Finset TransactionPointer

/- What a step gives to the wallet, or takes from it. -/
def handledAfter
    (history : WalletHistory) :
    WalletStep → Finset TransactionPointer
  | .create _ =>
      insert history.wallet.made history.handled
  | .handle transaction => insert transaction history.handled
  | .unhandle transaction => history.handled.erase transaction
  | _ => history.handled

/- A step with what it does to the transactions handled. -/
def historyStep
    (history : WalletHistory)
    (action : WalletStep) : Option WalletHistory := do
  let wallet ← walletStep history.wallet action
  some
    { wallet := wallet
      handled := handledAfter history action }

/- A wallet without transactions -/
def emptyWallet
    (address : BREthereumAddress)
    (addressNonce : UInt64)
    (memory : TransactionMemory) : WalletHistory where
  wallet :=
    { address := address
      addressNonce := addressNonce
      memory := memory
      made := 0
      transactions := [] }
  handled := ∅

/- Each transaction handled is held once, and in order. -/
structure Ordered (history : WalletHistory) : Prop where
  holds :
    ∀ transaction,
      transaction ∈ history.wallet.transactions ↔
        transaction ∈ history.handled
  once : history.wallet.transactions.Nodup
  sorted :
    history.wallet.transactions.Pairwise fun t1 t2 =>
      transactionCompare (history.wallet.memory t2)
          (history.wallet.memory t1) ≠
        .lt

/- The pointers of a wallet are to records that were made. -/
def Made (history : WalletHistory) : Prop :=
  ∀ transaction ∈ history.wallet.transactions,
    transaction < history.wallet.made

/- The new record compares to those around as the old one. -/
def KeepsPlace
    (wallet : BREthereumWallet)
    (pointer : TransactionPointer)
    (transaction : WalletTransaction) : Prop :=
  ∀ front back,
    wallet.transactions = front ++ pointer :: back →
      (∀ other ∈ front,
          transactionCompare transaction
              (wallet.memory other) ≠
            .lt) ∧
        ∀ other ∈ back,
          transactionCompare (wallet.memory other)
              transaction ≠
            .lt

/-
  The condition on a step: nothing is handled twice, and a
  change without a new insertion keeps the place.
-/
def InPlace
    (history : WalletHistory) : WalletStep → Prop
  | .sign transaction =>
      KeepsPlace history.wallet transaction
        (signedTransaction history.wallet.addressNonce
          (history.wallet.memory transaction))
  | .submit transaction hash =>
      KeepsPlace history.wallet transaction
        (transactionAnnounceSubmitted
          (history.wallet.memory transaction) hash)
  | .drop transaction =>
      KeepsPlace history.wallet transaction
        (transactionAnnounceDropped
          (history.wallet.memory transaction))
  | .handle transaction => transaction ∉ history.handled
  | _ => True

------------------------------------------------------------
-- Order of Keys
------------------------------------------------------------

theorem sorted_iff
    (memory : TransactionMemory)
    (transactions : List TransactionPointer) :
    (transactions.Pairwise fun t1 t2 =>
        transactionCompare (memory t2) (memory t1) ≠ .lt) ↔
      InOrder (keyOf memory) transactions := by
  simp only [transactionCompare_ne_lt_iff]
  rfl

theorem keepsPlace_iff
    (wallet : BREthereumWallet)
    (pointer : TransactionPointer)
    (transaction : WalletTransaction) :
    KeepsPlace wallet pointer transaction ↔
      Fits (keyOf wallet.memory) wallet.transactions pointer
        (orderKey transaction) := by
  unfold KeepsPlace
  simp only [transactionCompare_ne_lt_iff]
  rfl

theorem keyOf_update
    (memory : TransactionMemory)
    (pointer : TransactionPointer)
    (transaction : WalletTransaction) :
    keyOf (Function.update memory pointer transaction) =
      Function.update (keyOf memory) pointer
        (orderKey transaction) := by
  funext other
  unfold keyOf
  by_cases hSame : other = pointer
  · rw [hSame, Function.update_self, Function.update_self]
  · rw [Function.update_of_ne hSame, Function.update_of_ne hSame]

/-
  A record that keeps its key keeps its place: this is the case
  of a submission, or of a drop, of one that is not blocked.
-/
theorem keepsPlace_of_orderKey
    {history : WalletHistory}
    (hOrdered : Ordered history)
    {pointer : TransactionPointer}
    {transaction : WalletTransaction}
    (hKey :
      orderKey transaction =
        orderKey (history.wallet.memory pointer)) :
    KeepsPlace history.wallet pointer transaction := by
  rw [keepsPlace_iff, hKey]
  rw [← inOrder_update_iff hOrdered.once
    ((sorted_iff _ _).mp hOrdered.sorted)]
  have hSame :
      Function.update (keyOf history.wallet.memory) pointer
          (orderKey (history.wallet.memory pointer)) =
        keyOf history.wallet.memory :=
    Function.update_eq_self pointer _
  rw [hSame]
  exact (sorted_iff _ _).mp hOrdered.sorted

/- Unblocked transactions are in the order of their nonces. -/
theorem orderKey_of_unblocked
    {transaction : WalletTransaction}
    (hUnblocked : transactionIsBlocked transaction = false) :
    orderKey transaction =
      toLex (1, toLex (transaction.nonce.toNat, 0)) := by
  rcases transaction with ⟨_, nonce, _, state⟩
  cases state with
  | blocked _ _ _ _ => cases hUnblocked
  | _ => rfl

/-
  A transaction that is not blocked may be submitted or dropped,
  and signed if it has a nonce.
-/
theorem inPlace_of_unblocked
    {history : WalletHistory}
    (hOrdered : Ordered history)
    {pointer : TransactionPointer}
    (hUnblocked :
      transactionIsBlocked (history.wallet.memory pointer) =
        false) :
    (∀ hash, InPlace history (.submit pointer hash)) ∧
      InPlace history (.drop pointer) ∧
      ((history.wallet.memory pointer).nonce ≠
          TRANSACTION_NONCE_IS_NOT_ASSIGNED →
        InPlace history (.sign pointer)) := by
  have hOld := orderKey_of_unblocked hUnblocked
  refine ⟨fun hash => ?_, ?_, fun hAssigned => ?_⟩
  · apply keepsPlace_of_orderKey hOrdered
    rw [hOld]
    rfl
  · apply keepsPlace_of_orderKey hOrdered
    rw [hOld]
    rfl
  · apply keepsPlace_of_orderKey hOrdered
    rw [hOld]
    unfold signedTransaction
    rw [if_neg hAssigned]
    rfl

------------------------------------------------------------
-- Steps
------------------------------------------------------------

variable {history : WalletHistory}

/- A change of a record in its place -/
theorem ordered_change_iff
    (hOrdered : Ordered history)
    (pointer : TransactionPointer)
    (transaction : WalletTransaction)
    (addressNonce : UInt64) :
    Ordered
        { wallet :=
            { history.wallet.change pointer transaction with
              addressNonce := addressNonce }
          handled := history.handled } ↔
      KeepsPlace history.wallet pointer transaction := by
  have hSorted := (sorted_iff _ _).mp hOrdered.sorted
  rw [keepsPlace_iff,
    ← inOrder_update_iff hOrdered.once hSorted, ← keyOf_update,
    ← sorted_iff]
  constructor
  · exact Ordered.sorted
  · intro hNew
    exact ⟨hOrdered.holds, hOrdered.once, hNew⟩

/- A transaction is given to the wallet. -/
theorem ordered_handle_iff
    (hOrdered : Ordered history)
    (pointer : TransactionPointer)
    (wallet : BREthereumWallet)
    (hList :
      wallet.transactions =
        walletHandleTransaction wallet.memory
          history.wallet.transactions pointer)
    (hMemory :
      ∀ other ∈ history.wallet.transactions,
        wallet.memory other = history.wallet.memory other) :
    Ordered
        { wallet := wallet
          handled := insert pointer history.handled } ↔
      pointer ∉ history.handled := by
  have hInsert :
      wallet.transactions =
        insertLast (keyOf wallet.memory)
          history.wallet.transactions pointer := by
    rw [hList]
    exact walletInsertTransactionSorted_eq _ _ _
  constructor
  · intro hNew
    have hOnce := hNew.once
    rw [hInsert, nodup_insertLast, hOrdered.holds] at hOnce
    exact hOnce.1
  · intro hFresh
    constructor
    · intro transaction
      dsimp only
      rw [hInsert, mem_insertLast, hOrdered.holds,
        Finset.mem_insert]
    · dsimp only
      rw [hInsert, nodup_insertLast, hOrdered.holds]
      exact ⟨hFresh, hOrdered.once⟩
    · rw [sorted_iff]
      dsimp only
      rw [hInsert]
      apply InOrder.insertLast
      apply ((sorted_iff _ _).mp hOrdered.sorted).congr
      intro other hOther
      unfold keyOf
      rw [hMemory other hOther]

/- A blocked transaction is moved to its new place. -/
theorem ordered_block
    (hOrdered : Ordered history)
    {pointer : TransactionPointer}
    {transaction : WalletTransaction}
    {transactions : List TransactionPointer}
    (hUpdate :
      walletUpdateTransactionSorted
          (history.wallet.change pointer transaction).memory
          history.wallet.transactions pointer =
        some transactions) :
    Ordered
      { wallet :=
          { history.wallet.change pointer transaction with
            transactions := transactions }
        handled := history.handled } := by
  unfold walletUpdateTransactionSorted walletUnhandleTransaction
    at hUpdate
  by_cases hMem : pointer ∈ history.wallet.transactions
  · rw [if_pos hMem, Option.bind_eq_bind, Option.bind_some,
      Option.some.injEq, walletInsertTransactionSorted_eq]
      at hUpdate
    have hApart :
        pointer ∉ history.wallet.transactions.erase pointer :=
      hOrdered.once.not_mem_erase
    subst hUpdate
    constructor
    · intro other
      dsimp only
      rw [mem_insertLast, ← hOrdered.holds]
      by_cases hOther : other = pointer
      · rw [hOther]
        exact ⟨fun _ => hMem, fun _ => Or.inl rfl⟩
      · rw [List.mem_erase_of_ne hOther, or_iff_right hOther]
    · dsimp only
      rw [nodup_insertLast]
      exact ⟨hApart, hOrdered.once.erase pointer⟩
    · rw [sorted_iff]
      apply InOrder.insertLast
      have hRest :=
        ((sorted_iff _ _).mp hOrdered.sorted).of_sublist
          (List.erase_sublist (a := pointer))
      apply hRest.congr
      intro other hOther
      unfold keyOf BREthereumWallet.change
      dsimp only
      rw [Function.update_of_ne]
      rintro rfl
      exact hApart hOther
  · rw [if_neg hMem] at hUpdate
    cases hUpdate

/- A transaction is taken from the wallet. -/
theorem ordered_unhandle
    (hOrdered : Ordered history)
    {pointer : TransactionPointer}
    {transactions : List TransactionPointer}
    (hUnhandle :
      walletUnhandleTransaction history.wallet.transactions
          pointer =
        some transactions) :
    Ordered
      { wallet :=
          { history.wallet with transactions := transactions }
        handled := history.handled.erase pointer } := by
  unfold walletUnhandleTransaction at hUnhandle
  by_cases hMem : pointer ∈ history.wallet.transactions
  · rw [if_pos hMem, Option.some.injEq] at hUnhandle
    subst hUnhandle
    constructor
    · intro other
      dsimp only
      rw [hOrdered.once.mem_erase_iff, hOrdered.holds,
        Finset.mem_erase]
    · exact hOrdered.once.erase pointer
    · exact hOrdered.sorted.sublist List.erase_sublist
  · rw [if_neg hMem] at hUnhandle
    cases hUnhandle

theorem made_of_step
    (action : WalletStep)
    {next : WalletHistory}
    (hMade : Made history)
    (hStep : historyStep history action = some next) :
    Made next := by
  unfold historyStep at hStep
  rw [Option.bind_eq_bind, Option.bind_eq_some_iff] at hStep
  rcases hStep with ⟨wallet, hWallet, hNext⟩
  cases hNext
  intro pointer hPointer
  dsimp only at hPointer ⊢
  cases action with
  | make sourceAddress nonce =>
      cases hWallet
      exact Nat.lt_succ_of_lt (hMade pointer hPointer)
  | setNonce nonce =>
      cases hWallet
      exact hMade pointer hPointer
  | create nonce =>
      cases hWallet
      unfold walletHandleTransaction at hPointer
      dsimp only at hPointer
      rw [walletInsertTransactionSorted_eq, mem_insertLast]
        at hPointer
      rcases hPointer with rfl | hOld
      · exact Nat.lt_succ_self _
      · exact Nat.lt_succ_of_lt (hMade pointer hOld)
  | sign transaction =>
      unfold walletStep at hWallet
      dsimp only at hWallet
      split_ifs at hWallet
      cases hWallet
      exact hMade pointer hPointer
  | submit transaction hash =>
      unfold walletStep at hWallet
      dsimp only at hWallet
      split_ifs at hWallet
      cases hWallet
      exact hMade pointer hPointer
  | drop transaction =>
      unfold walletStep at hWallet
      dsimp only at hWallet
      split_ifs at hWallet
      cases hWallet
      exact hMade pointer hPointer
  | block transaction gasUsed number timestamp index =>
      unfold walletStep at hWallet
      dsimp only at hWallet
      split_ifs at hWallet with hValid
      rw [Option.bind_eq_bind, Option.bind_eq_some_iff]
        at hWallet
      rcases hWallet with ⟨transactions, hUpdate, hSame⟩
      cases hSame
      unfold walletUpdateTransactionSorted
        walletUnhandleTransaction at hUpdate
      split_ifs at hUpdate
      · cases hUpdate
        rw [walletInsertTransactionSorted_eq, mem_insertLast]
          at hPointer
        rcases hPointer with rfl | hOld
        · exact hValid
        · exact hMade pointer (List.mem_of_mem_erase hOld)
      · cases hUpdate
  | handle transaction =>
      unfold walletStep at hWallet
      dsimp only at hWallet
      split_ifs at hWallet with hValid
      cases hWallet
      unfold walletHandleTransaction at hPointer
      dsimp only at hPointer
      rw [walletInsertTransactionSorted_eq, mem_insertLast]
        at hPointer
      rcases hPointer with rfl | hOld
      · exact hValid
      · exact hMade pointer hOld
  | unhandle transaction =>
      unfold walletStep walletUnhandleTransaction at hWallet
      dsimp only at hWallet
      split_ifs at hWallet
      · cases hWallet
        exact hMade pointer (List.mem_of_mem_erase hPointer)
      · cases hWallet

/- Records in the list are not the one that is made. -/
theorem made_memory
    (hMade : Made history)
    (transaction : WalletTransaction)
    {other : TransactionPointer}
    (hOther : other ∈ history.wallet.transactions) :
    (history.wallet.make transaction).memory other =
      history.wallet.memory other := by
  unfold BREthereumWallet.make
  exact Function.update_of_ne (hMade other hOther).ne _ _

/- The order survives a step exactly when it is in place. -/
theorem ordered_step_iff
    (action : WalletStep)
    {next : WalletHistory}
    (hMade : Made history)
    (hOrdered : Ordered history)
    (hStep : historyStep history action = some next) :
    Ordered next ↔ InPlace history action := by
  unfold historyStep at hStep
  rw [Option.bind_eq_bind, Option.bind_eq_some_iff] at hStep
  rcases hStep with ⟨wallet, hWallet, hNext⟩
  cases hNext
  cases action with
  | make sourceAddress nonce =>
      cases hWallet
      refine ⟨fun _ => trivial, fun _ => ?_⟩
      refine ⟨hOrdered.holds, hOrdered.once, ?_⟩
      rw [sorted_iff]
      apply ((sorted_iff _ _).mp hOrdered.sorted).congr
      intro other hOther
      exact congrArg orderKey (made_memory hMade _ hOther)
  | setNonce nonce =>
      cases hWallet
      exact
        ⟨fun _ => trivial, fun _ =>
          ⟨hOrdered.holds, hOrdered.once, hOrdered.sorted⟩⟩
  | create nonce =>
      cases hWallet
      refine ⟨fun _ => trivial, fun _ => ?_⟩
      apply (ordered_handle_iff hOrdered _ _ ?_ ?_).mpr
      · rw [← hOrdered.holds]
        exact fun hMem => absurd (hMade _ hMem) (lt_irrefl _)
      · rfl
      · intro other hOther
        exact made_memory hMade _ hOther
  | sign transaction =>
      unfold walletStep at hWallet
      dsimp only at hWallet
      split_ifs at hWallet
      cases hWallet
      exact ordered_change_iff hOrdered transaction _ _
  | submit transaction hash =>
      unfold walletStep at hWallet
      dsimp only at hWallet
      split_ifs at hWallet
      cases hWallet
      exact
        ordered_change_iff hOrdered transaction _
          history.wallet.addressNonce
  | drop transaction =>
      unfold walletStep at hWallet
      dsimp only at hWallet
      split_ifs at hWallet
      cases hWallet
      exact
        ordered_change_iff hOrdered transaction _
          history.wallet.addressNonce
  | block transaction gasUsed number timestamp index =>
      unfold walletStep at hWallet
      dsimp only at hWallet
      split_ifs at hWallet
      rw [Option.bind_eq_bind, Option.bind_eq_some_iff]
        at hWallet
      rcases hWallet with ⟨transactions, hUpdate, hSame⟩
      cases hSame
      exact
        ⟨fun _ => trivial, fun _ =>
          ordered_block hOrdered hUpdate⟩
  | handle transaction =>
      unfold walletStep at hWallet
      dsimp only at hWallet
      split_ifs at hWallet
      cases hWallet
      exact
        ordered_handle_iff hOrdered transaction _ rfl
          (fun _ _ => rfl)
  | unhandle transaction =>
      unfold walletStep at hWallet
      dsimp only at hWallet
      rw [Option.bind_eq_bind, Option.bind_eq_some_iff]
        at hWallet
      rcases hWallet with ⟨transactions, hUnhandle, hSame⟩
      cases hSame
      exact
        ⟨fun _ => trivial, fun _ =>
          ordered_unhandle hOrdered hUnhandle⟩

------------------------------------------------------------
-- Runs
------------------------------------------------------------

theorem holder_valid :
    validateAddressString
        (cString
          "0x00000000000000000000000000000000000000a1") =
      true := by
  decide +kernel

def holder : BREthereumAddress where
  string :=
    cString "0x00000000000000000000000000000000000000a1"
  valid := holder_valid

/- A wallet of which no transaction was made yet -/
def newWallet : WalletHistory :=
  emptyWallet holder 0 fun _ => newTransaction holder 0

/- Two transactions are blocked in the other order. -/
def createdAndBlocked : List WalletStep :=
  [.create TRANSACTION_NONCE_IS_NOT_ASSIGNED,
    .create TRANSACTION_NONCE_IS_NOT_ASSIGNED,
    .block 1 21000 7 100 0, .block 0 21000 7 100 1]

/- The second of two transactions is signed first. -/
def signedOutOfOrder : List WalletStep :=
  [.create TRANSACTION_NONCE_IS_NOT_ASSIGNED,
    .create TRANSACTION_NONCE_IS_NOT_ASSIGNED, .sign 1]

end Ethereum

end PlusWallet
