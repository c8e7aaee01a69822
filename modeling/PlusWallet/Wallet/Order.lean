import PlusWallet.Wallet.Addresses

/-
  The list of transactions stays sorted by height, over any
  run whose calls do not free a listed transaction.

  Main declarations:
    * `BRWallet.Ordered`
    * `BRWallet.txUnconfirmedBefore`
    * `BRWallet.OrderStep`
    * `BRWallet.ordered_of_run`
-/

namespace PlusWallet

namespace BRWallet

variable {Hash Address : Type}
variable [DecidableEq Hash] [DecidableEq Address]
variable {keys : WalletKeys Address}
variable {wallet next : BRWallet Hash Address}

------------------------------------------------------------
-- Sorted Lists
------------------------------------------------------------

/- A listed transaction is no higher than a later one. -/
def NotAbove
    (allTx : TxSet Hash)
    (hash later : Hash) : Prop :=
  ∀ tx other, allTx.get hash = some tx →
    allTx.get later = some other →
      tx.blockHeight ≤ other.blockHeight

/-
  The list holds no transaction twice, only entries of
  `allTx`, and by non-decreasing height.
-/
structure Ordered
    (wallet : BRWallet Hash Address) : Prop where
  distinct : wallet.transactions.Nodup
  entries :
    ∀ hash ∈ wallet.transactions, ∃ tx,
      wallet.allTx.get hash = some tx
  ascending :
    wallet.transactions.Pairwise (NotAbove wallet.allTx)

omit [DecidableEq Address] in
/- Only the listed entries of `allTx` matter. -/
theorem Ordered.of_frame
    (hOrdered : Ordered wallet)
    (hList : next.transactions.Sublist wallet.transactions)
    (hSame :
      ∀ hash ∈ next.transactions,
        next.allTx.get hash = wallet.allTx.get hash) :
    Ordered next where
  distinct := hOrdered.distinct.sublist hList
  entries := by
    intro hash hHash
    rw [hSame hash hHash]
    exact hOrdered.entries hash (hList.subset hHash)
  ascending := by
    refine
      (hOrdered.ascending.sublist hList).imp_of_mem ?_
    intro hash later hHash hLater hNotAbove tx other hTx hOther
    rw [hSame hash hHash] at hTx
    rw [hSame later hLater] at hOther
    exact hNotAbove tx other hTx hOther

omit [DecidableEq Address] in
theorem Ordered.of_same
    (hOrdered : Ordered wallet)
    (hSame : SameRecords wallet next) :
    Ordered next := by
  refine hOrdered.of_frame ?_ ?_
  · rw [hSame.transactions]
  · intro hash _
    rw [hSame.allTx]

/- A transaction that compares greater is at least as high. -/
theorem height_le_of_greater
    {tx other : BRTransaction Hash}
    {order : Int}
    (hCompare : txCompare keys wallet other tx = some order)
    (hGreater : 0 < order) :
    tx.blockHeight ≤ other.blockHeight := by
  by_contra hLower
  rw [not_le] at hLower
  simp only [txCompare, txIsAscending,
    if_neg (not_lt.mpr hLower.le), if_pos hLower,
    Option.bind_eq_bind, Option.bind_some] at hCompare
  cases hCompare
  omega

theorem height_le_of_not_greater
    {tx other : BRTransaction Hash}
    {order : Int}
    (hCompare : txCompare keys wallet other tx = some order)
    (hNotGreater : ¬ 0 < order) :
    other.blockHeight ≤ tx.blockHeight := by
  by_contra hHigher
  rw [not_le] at hHigher
  simp only [txCompare, txIsAscending, if_pos hHigher,
    Option.bind_eq_bind, Option.bind_some] at hCompare
  cases hCompare
  omega

omit [DecidableEq Address] in
/- All entries up to the last one are no higher than it. -/
theorem le_of_getLast?
    {front : List Hash}
    {bound : Nat}
    {allTx : TxSet Hash}
    (hFront : front.Pairwise (NotAbove allTx))
    (hLast :
      ∀ hash, front.getLast? = some hash → ∃ tx,
        allTx.get hash = some tx ∧ tx.blockHeight ≤ bound) :
    ∀ hash ∈ front, ∀ tx,
      allTx.get hash = some tx → tx.blockHeight ≤ bound := by
  induction front using List.reverseRecOn with
  | nil => simp
  | append_singleton front last _ =>
      rcases hLast last (by simp) with
        ⟨lastTx, hLastTx, hBound⟩
      rw [List.pairwise_append] at hFront
      intro hash hHash tx hTx
      rcases List.mem_append.mp hHash with hBefore | hSame
      · have hNotAbove :=
          hFront.2.2 hash hBefore last (by simp)
        exact (hNotAbove tx lastTx hTx hLastTx).trans hBound
      · rw [List.mem_singleton.mp hSame, hLastTx] at hTx
        cases hTx
        exact hBound

/- Inserting a transaction at its place keeps the order. -/
theorem Ordered.insertTx
    {tx : BRTransaction Hash}
    (hOrdered : Ordered wallet)
    (hEntry : wallet.allTx.get tx.txHash = some tx)
    (hFresh : tx.txHash ∉ wallet.transactions)
    (hInsert : wallet.insertTx keys tx = some next) :
    Ordered next := by
  rcases insertTx_cases hInsert with
    ⟨front, back, hList, rfl, hBack, hFront⟩
  have hAscending := hOrdered.ascending
  rw [hList, List.pairwise_append] at hAscending
  have hBefore :
      ∀ hash ∈ front, ∀ other,
        wallet.allTx.get hash = some other →
          other.blockHeight ≤ tx.blockHeight := by
    refine le_of_getLast? hAscending.1 ?_
    intro hash hHash
    rcases hFront hash hHash with
      ⟨other, order, hOther, hCompare, hOrder⟩
    exact
      ⟨other, hOther, height_le_of_not_greater hCompare hOrder⟩
  have hAfter :
      ∀ hash ∈ back, ∀ other,
        wallet.allTx.get hash = some other →
          tx.blockHeight ≤ other.blockHeight := by
    intro hash hHash other hOther
    rcases hBack hash hHash with
      ⟨same, order, hSame, hCompare, hOrder⟩
    rw [hSame] at hOther
    cases hOther
    exact height_le_of_greater hCompare hOrder
  have hPerm := perm_insertTx hInsert
  exact
    { distinct := by
        rw [hPerm.nodup_iff, List.nodup_cons]
        exact ⟨hFresh, hOrdered.distinct⟩
      entries := by
        intro hash hHash
        rcases List.mem_cons.mp (hPerm.mem_iff.mp hHash) with
          rfl | hOld
        · exact ⟨tx, hEntry⟩
        · exact hOrdered.entries hash hOld
      ascending := by
        rw [List.pairwise_append, List.pairwise_cons]
        refine
          ⟨hAscending.1, ⟨?_, hAscending.2.1⟩, ?_⟩
        · intro hash hHash self other hSelf hOther
          rw [hEntry] at hSelf
          cases hSelf
          exact hAfter hash hHash other hOther
        · intro hash hHash later hLater
          rcases List.mem_cons.mp hLater with rfl | hLater
          · intro other self hOther hSelf
            rw [hEntry] at hSelf
            cases hSelf
            exact hBefore hash hHash other hOther
          · exact hAscending.2.2 hash hHash later hLater }

------------------------------------------------------------
-- Transactions of the Wallet
------------------------------------------------------------

/-
  No address is lost and no transaction that pays the wallet
  is freed.
-/
structure Keeps
    (keys : WalletKeys Address)
    (wallet next : BRWallet Hash Address) : Prop where
  addrs : wallet.allAddrs ⊆ next.allAddrs
  outputs :
    ∀ hash parent, wallet.allTx.get hash = some parent →
      (∃ kept, next.allTx.get hash = some kept ∧
        kept.outputs = parent.outputs) ∨
      ∀ output ∈ parent.outputs,
        wallet.paysWallet keys output = false

/-
  A transaction that pays the wallet or spends from it still
  does then.
-/
theorem containsTx_of_keeps
    {tx same : BRTransaction Hash}
    (hKeeps : Keeps keys wallet next)
    (hInputs : same.inputs = tx.inputs)
    (hOutputs : same.outputs = tx.outputs)
    (hContains : wallet.containsTx keys tx = true) :
    next.containsTx keys same = true := by
  have hPays :
      ∀ output, wallet.paysWallet keys output = true →
        next.paysWallet keys output = true := by
    intro output hOutput
    rw [paysWallet] at hOutput ⊢
    split at hOutput
    · exact
        decide_eq_true
          (hKeeps.addrs (of_decide_eq_true hOutput))
    · cases hOutput
  rw [containsTx, Bool.or_eq_true, List.any_eq_true,
    List.any_eq_true] at hContains ⊢
  rw [hInputs, hOutputs]
  rcases hContains with
    ⟨output, hOutput, hPaid⟩ | ⟨input, hInput, hSpent⟩
  · exact Or.inl ⟨output, hOutput, hPays output hPaid⟩
  · refine Or.inr ⟨input, hInput, ?_⟩
    cases hParent : wallet.allTx.get input.txHash with
    | none =>
        simp [spentOutput, BRTxInput.utxo, hParent] at hSpent
    | some parent =>
        cases hAt : parent.outputs[input.index.toNat]? with
        | none =>
            simp [spentOutput, BRTxInput.utxo, hParent, hAt]
              at hSpent
        | some output =>
            simp only [spentOutput, BRTxInput.utxo, hParent,
              Option.bind_eq_bind, Option.bind_some, hAt]
              at hSpent
            rcases hKeeps.outputs _ parent hParent with
              ⟨kept, hKeptTx, hSame⟩ | hNone
            · simp only [spentOutput, BRTxInput.utxo, hKeptTx,
                Option.bind_eq_bind, Option.bind_some, hSame,
                hAt]
              exact hPays output hSpent
            · rw [hNone output (List.mem_of_getElem? hAt)]
                at hSpent
              cases hSpent

/-
  The listed transactions to be updated already have the
  height and the time, or concern the wallet.
-/
def Settled
    (keys : WalletKeys Address)
    (wallet : BRWallet Hash Address)
    (txHashes : List Hash)
    (blockHeight timestamp : Nat) : Prop :=
  ∀ hash ∈ txHashes, hash ∈ wallet.transactions →
    ∀ tx, wallet.allTx.get hash = some tx →
      (tx.blockHeight = blockHeight ∧
          tx.timestamp = timestamp) ∨
        wallet.containsTx keys tx = true

theorem Settled.of_keeps
    {txHashes : List Hash}
    {blockHeight timestamp : Nat}
    (hSettled :
      Settled keys wallet txHashes blockHeight timestamp)
    (hKeeps : Keeps keys wallet next)
    (hList :
      ∀ hash ∈ next.transactions, hash ∈ wallet.transactions)
    (hEntries :
      ∀ hash ∈ next.transactions, ∀ tx,
        next.allTx.get hash = some tx →
          wallet.allTx.get hash = some tx ∨
            (tx.blockHeight = blockHeight ∧
              tx.timestamp = timestamp)) :
    Settled keys next txHashes blockHeight timestamp := by
  intro hash hHash hListed tx hTx
  rcases hEntries hash hListed tx hTx with hOld | hMoved
  · rcases hSettled hash hHash (hList hash hListed) tx hOld with
      hMoved | hContains
    · exact Or.inl hMoved
    · exact
        Or.inr
          (containsTx_of_keeps hKeeps rfl rfl hContains)
  · exact Or.inl hMoved

section Round

variable {blockHeight timestamp : Nat}
variable {hash : Hash}
variable {tx : BRTransaction Hash}

omit [DecidableEq Address] in
theorem get_moved
    (hTx : wallet.allTx.get hash = some tx)
    (other : Hash) :
    (wallet.allTx.add
        (moveTx tx blockHeight timestamp)).get other =
      if other = hash then
        some (moveTx tx blockHeight timestamp)
      else wallet.allTx.get other := by
  rw [KeyedSet.get_add]
  exact if_congr
    (by rw [← KeyedSet.key_of_get hTx]; rfl) rfl rfl

/- Moving a transaction frees none. -/
theorem keeps_moved
    (hTx : wallet.allTx.get hash = some tx)
    (hAddrs : next.allAddrs = wallet.allAddrs)
    (hAllTx :
      next.allTx =
        wallet.allTx.add (moveTx tx blockHeight timestamp)) :
    Keeps keys wallet next := by
  refine ⟨by rw [hAddrs], ?_⟩
  intro other parent hParent
  rw [hAllTx]
  left
  rw [get_moved hTx]
  split_ifs with hSame
  · rw [hSame, hTx] at hParent
    cases hParent
    exact ⟨_, rfl, rfl⟩
  · exact ⟨parent, hParent, rfl⟩

/- Only a transaction that does not pay the wallet is freed. -/
theorem keeps_removed
    (hTx : wallet.allTx.get hash = some tx)
    (hNot :
      containsTx keys
          { wallet with
            allTx :=
              wallet.allTx.add
                (moveTx tx blockHeight timestamp) }
          (moveTx tx blockHeight timestamp) =
        false) :
    Keeps keys wallet
      { wallet with
        allTx :=
          (wallet.allTx.add
            (moveTx tx blockHeight timestamp)).remove
              hash } := by
  refine ⟨Finset.Subset.refl _, ?_⟩
  intro other parent hParent
  by_cases hSame : other = hash
  · right
    rw [hSame, hTx] at hParent
    cases hParent
    rw [containsTx, Bool.or_eq_false_iff] at hNot
    intro output hOutput
    exact
      Bool.eq_false_iff.mpr
        (List.any_eq_false.mp hNot.1 output hOutput)
  · left
    rw [KeyedSet.get_remove, if_neg hSame, get_moved hTx,
      if_neg hSame]
    exact ⟨parent, hParent, rfl⟩

/- A round of the update keeps the list sorted. -/
theorem ordered_updateTx
    {txHashes : List Hash}
    {needsUpdate after : Bool}
    (hOrdered : Ordered wallet)
    (hSettled :
      Settled keys wallet txHashes blockHeight timestamp)
    (hHash : hash ∈ txHashes)
    (hUpdate :
      updateTx keys blockHeight timestamp
          (wallet, needsUpdate) hash =
        some (next, after)) :
    Ordered next ∧
      Settled keys next txHashes blockHeight timestamp := by
  rcases updateTx_cases hUpdate with
    ⟨rfl, -⟩ | ⟨tx, hTx, hMoves, ⟨-, hNext, -⟩ |
      ⟨hNot, -, hNext⟩⟩
  · exact ⟨hOrdered, hSettled⟩
  · have hMovedEntries :
        ∀ other found,
          (wallet.allTx.add
              (moveTx tx blockHeight timestamp)).get other =
            some found →
          wallet.allTx.get other = some found ∨
            (found.blockHeight = blockHeight ∧
              found.timestamp = timestamp) := by
      intro other found hFound
      rw [get_moved hTx] at hFound
      split_ifs at hFound with hSame
      · cases hFound
        exact Or.inr ⟨rfl, rfl⟩
      · exact Or.inl hFound
    rcases hNext with ⟨hUnlisted, rfl⟩ | ⟨hListed, hInsert⟩
    · refine ⟨hOrdered.of_frame (List.Sublist.refl _) ?_, ?_⟩
      · intro other hOther
        rw [get_moved hTx,
          if_neg (ne_of_mem_of_not_mem hOther hUnlisted)]
      · exact
          hSettled.of_keeps (keeps_moved hTx rfl rfl)
            (fun _ hOther => hOther)
            fun other _ => hMovedEntries other
    · have hErased :
          Ordered
            { wallet with
              allTx :=
                wallet.allTx.add
                  (moveTx tx blockHeight timestamp)
              transactions :=
                eraseLast wallet.transactions hash } := by
        refine hOrdered.of_frame (sublist_eraseLast _ _) ?_
        intro other hOther
        rw [get_moved hTx,
          if_neg
            ((mem_eraseLast hOrdered.distinct).mp hOther).1]
      have hKey : tx.txHash = hash := KeyedSet.key_of_get hTx
      have hPerm := perm_insertTx hInsert
      have hRecords := sameChains_insertTx hInsert
      have hAllTx :
          next.allTx =
            wallet.allTx.add
              (moveTx tx blockHeight timestamp) := by
        rcases insertTx_cases hInsert with ⟨_, _, _, rfl, _, _⟩
        rfl
      refine ⟨?_, ?_⟩
      · refine hErased.insertTx ?_ ?_ hInsert
        · exact KeyedSet.get_add_self _ _
        · intro hMember
          exact
            ((mem_eraseLast hOrdered.distinct).mp hMember).1
              hKey
      · refine
          hSettled.of_keeps
            (keeps_moved hTx hRecords.union hAllTx) ?_ ?_
        · intro other hOther
          rcases List.mem_cons.mp (hPerm.mem_iff.mp hOther) with
            rfl | hOld
          · rw [moveTx, hKey]
            exact hListed
          · exact
              ((mem_eraseLast hOrdered.distinct).mp hOld).2
        · rw [hAllTx]
          exact fun other _ => hMovedEntries other
  · have hKeeps :
        Keeps keys wallet
          { wallet with
            allTx :=
              wallet.allTx.add
                (moveTx tx blockHeight timestamp) } :=
      keeps_moved hTx rfl rfl
    have hUnlisted : hash ∉ wallet.transactions := by
      intro hListed
      rcases hSettled hash hHash hListed tx hTx with
        hSame | hContains
      · exact hMoves hSame
      · have hStill :=
          containsTx_of_keeps hKeeps
            (rfl : (moveTx tx blockHeight timestamp).inputs = _)
            rfl hContains
        exact absurd (hNot.symm.trans hStill) (by decide)
    have hOld :
        ∀ other ∈ wallet.transactions,
          (wallet.allTx.add
              (moveTx tx blockHeight timestamp)).get other =
            wallet.allTx.get other := by
      intro other hOther
      rw [get_moved hTx,
        if_neg (ne_of_mem_of_not_mem hOther hUnlisted)]
    rcases hNext with ⟨-, rfl⟩ | ⟨-, rfl⟩
    · refine
        ⟨hOrdered.of_frame (List.Sublist.refl _) hOld, ?_⟩
      refine
        hSettled.of_keeps hKeeps (fun _ hOther => hOther) ?_
      intro other hOther found hFound
      exact Or.inl ((hOld other hOther).symm.trans hFound)
    · have hRest :
          ∀ other ∈ wallet.transactions,
            ((wallet.allTx.add
                (moveTx tx blockHeight timestamp)).remove
                  hash).get other =
              wallet.allTx.get other := by
        intro other hOther
        rw [KeyedSet.get_remove,
          if_neg (ne_of_mem_of_not_mem hOther hUnlisted),
          hOld other hOther]
      refine
        ⟨hOrdered.of_frame (List.Sublist.refl _) hRest, ?_⟩
      refine
        hSettled.of_keeps (keeps_removed hTx hNot)
          (fun _ hOther => hOther) ?_
      intro other hOther found hFound
      exact Or.inl ((hRest other hOther).symm.trans hFound)

end Round

theorem ordered_updateBalance
    {now : Nat}
    (hOrdered : Ordered wallet)
    (hUpdate : wallet.updateBalance keys now = some next) :
    Ordered next := by
  rcases updateBalance_cases hUpdate with ⟨_, _, rfl⟩
  exact hOrdered.of_same ⟨rfl, rfl⟩

theorem ordered_updateTransactions
    {txHashes : List Hash}
    {blockHeight timestamp now : Nat}
    (hOrdered : Ordered wallet)
    (hSettled :
      Settled keys wallet txHashes blockHeight timestamp)
    (hUpdate :
      wallet.updateTransactions keys txHashes blockHeight
          timestamp now =
        some next) :
    Ordered next := by
  simp only [updateTransactions, Option.bind_eq_bind,
    Option.bind_eq_some_iff] at hUpdate
  rcases hUpdate with ⟨⟨middle, needsUpdate⟩, hLoop, hRest⟩
  have hMiddle :
      Ordered middle ∧
        Settled keys middle txHashes blockHeight timestamp :=
    Run.run_invariant
      (fun state : BRWallet Hash Address × Bool =>
        Ordered state.1 ∧
          Settled keys state.1 txHashes blockHeight timestamp)
      (fun state hash next hState hHash hStep =>
        ordered_updateTx hState.1 hState.2 hHash hStep)
      ⟨hOrdered.of_same ⟨rfl, rfl⟩, hSettled⟩
      (Run.Meets.of_mem (fun _ _ hHash => hHash) _) hLoop
  split_ifs at hRest
  · exact ordered_updateBalance hMiddle.1 hRest
  · rw [← Option.some.inj hRest]
    exact hMiddle.1

------------------------------------------------------------
-- Scans from the End
------------------------------------------------------------

/- A transaction is known and its height passes a test. -/
def isHigh
    (allTx : TxSet Hash)
    (high : Nat → Bool)
    (hash : Hash) : Bool :=
  (allTx.get hash).any fun tx => high tx.blockHeight

/-
  `BRWalletTxUnconfirmedBefore`, with the count it returns
  and what it writes to an array of `txCount` entries, or to
  no array.
-/
def txUnconfirmedBefore
    (wallet : BRWallet Hash Address)
    (txCount : Option Nat)
    (blockHeight : Nat) : Option (Nat × List Hash) := do
  let found ←
    suffixWhile wallet.allTx
      (fun height => decide (blockHeight ≤ height))
      wallet.transactions.reverse
  let n := found.length
  match txCount with
  | none => some (n, [])
  | some txCount =>
      let txCount := if n < txCount then n else txCount
      some (txCount, found.reverse.take txCount)

omit [DecidableEq Address] in
/- In a sorted list the scan finds every high transaction. -/
theorem suffixWhile_of_ordered
    (hOrdered : Ordered wallet)
    (high : Nat → Bool)
    (hHigh :
      ∀ lower upper, lower ≤ upper →
        high lower = true → high upper = true) :
    suffixWhile wallet.allTx high
        wallet.transactions.reverse =
      some
        (wallet.transactions.filter
          (isHigh wallet.allTx high)).reverse := by
  have hEntries := hOrdered.entries
  have hAscending := hOrdered.ascending
  generalize wallet.transactions = transactions
    at hEntries hAscending
  induction transactions using List.reverseRecOn with
  | nil => rfl
  | append_singleton front last ih =>
      rw [List.pairwise_append] at hAscending
      rcases hEntries last (by simp) with ⟨lastTx, hLast⟩
      have hFrontEntries :
          ∀ hash ∈ front, ∃ tx,
            wallet.allTx.get hash = some tx :=
        fun hash hHash =>
          hEntries hash (List.mem_append_left _ hHash)
      rw [List.reverse_append, List.reverse_singleton,
        List.singleton_append, suffixWhile, hLast,
        List.filter_append, Option.bind_eq_bind,
        Option.bind_some, ih hFrontEntries hAscending.1]
      split_ifs with hLastHigh
      · simp [isHigh, hLast, hLastHigh]
      · have hNone :
            front.filter (isHigh wallet.allTx high) = [] := by
          rw [List.filter_eq_nil_iff]
          intro hash hHash hHashHigh
          rcases hFrontEntries hash hHash with ⟨tx, hTx⟩
          rw [isHigh, hTx] at hHashHigh
          exact
            hLastHigh
              (hHigh _ _
                (hAscending.2.2 hash hHash last (by simp) tx
                  lastTx hTx hLast)
                hHashHigh)
        simp [hNone, isHigh, hLast, hLastHigh]

omit [DecidableEq Address] in
/-
  In a sorted list the call writes exactly the transactions
  from the height on, as many as there is room for.
-/
theorem txUnconfirmedBefore_of_ordered
    (hOrdered : Ordered wallet)
    (txCount : Option Nat)
    (blockHeight : Nat) :
    let found :=
      wallet.transactions.filter
        (isHigh wallet.allTx
          fun height => decide (blockHeight ≤ height))
    wallet.txUnconfirmedBefore txCount blockHeight =
      some
        (match txCount with
        | none => (found.length, [])
        | some txCount =>
            (min found.length txCount, found.take txCount)) := by
  intro found
  have hScan :=
    suffixWhile_of_ordered hOrdered
      (fun height => decide (blockHeight ≤ height))
      (fun lower upper hLess hHigh =>
        decide_eq_true
          ((of_decide_eq_true hHigh).trans hLess))
  rw [txUnconfirmedBefore, hScan]
  cases txCount with
  | none => simp [found]
  | some txCount =>
      simp only [Option.bind_eq_bind, Option.bind_some,
        List.length_reverse, List.reverse_reverse]
      split_ifs with hRoom
      · rw [min_eq_left hRoom.le, List.take_length,
          List.take_of_length_le hRoom.le]
      · rw [min_eq_right (not_lt.mp hRoom)]

/-
  In a sorted list the call unconfirms exactly the listed
  transactions above the height.
-/
theorem setTxUnconfirmedAfter_of_ordered
    (hOrdered : Ordered wallet)
    (blockHeight now : Nat) :
    ∃ next,
      wallet.setTxUnconfirmedAfter keys blockHeight now =
          some next ∧
        ∀ hash,
          next.allTx.get hash =
            if hash ∈ wallet.transactions ∧
                isHigh wallet.allTx
                  (fun height => decide (blockHeight < height))
                  hash then
              (wallet.allTx.get hash).map fun tx =>
                { tx with blockHeight := TX_UNCONFIRMED }
            else wallet.allTx.get hash := by
  have hScan :=
    suffixWhile_of_ordered hOrdered
      (fun height => decide (blockHeight < height))
      (fun lower upper hLess hHigh =>
        decide_eq_true
          (lt_of_lt_of_le (of_decide_eq_true hHigh) hLess))
  have hGet :
      ∀ hash,
        ((wallet.transactions.filter
            (isHigh wallet.allTx fun height =>
              decide (blockHeight < height))).reverse.foldl
                setUnconfirmed wallet.allTx).get hash =
          if hash ∈ wallet.transactions ∧
              isHigh wallet.allTx
                (fun height => decide (blockHeight < height))
                hash then
            (wallet.allTx.get hash).map fun tx =>
              { tx with blockHeight := TX_UNCONFIRMED }
          else wallet.allTx.get hash := by
    intro hash
    simp only [get_foldl_setUnconfirmed, List.mem_reverse,
      List.mem_filter]
  rw [setTxUnconfirmedAfter]
  simp only [suffixAbove_eq, hScan, Option.bind_eq_bind,
    Option.bind_some]
  split_ifs with hNone
  · exact ⟨_, rfl, hGet⟩
  · have hUpdates :
        ∃ next,
          updateBalance keys
              { wallet with
                blockHeight := blockHeight
                allTx :=
                  (wallet.transactions.filter
                    (isHigh wallet.allTx fun height =>
                      decide
                        (blockHeight < height))).reverse.foldl
                          setUnconfirmed wallet.allTx }
              now =
            some next := by
      refine updateBalance_of_entries ?_ now
      intro hash hHash
      rcases hOrdered.entries hash hHash with ⟨tx, hTx⟩
      simp only [hGet, hTx]
      split_ifs <;> exact ⟨_, rfl⟩
    rcases hUpdates with ⟨next, hUpdate⟩
    refine ⟨next, hUpdate, ?_⟩
    rcases updateBalance_cases hUpdate with ⟨_, _, rfl⟩
    exact hGet

/-
  Nothing listed lies between the height of the unconfirmed
  and the given one, if anything listed is above it.
-/
def ClearAbove
    (wallet : BRWallet Hash Address)
    (blockHeight : Nat) : Prop :=
  (∃ hash ∈ wallet.transactions, ∃ tx,
      wallet.allTx.get hash = some tx ∧
        blockHeight < tx.blockHeight) →
    ∀ hash ∈ wallet.transactions, ∀ tx,
      wallet.allTx.get hash = some tx →
        tx.blockHeight ≤ TX_UNCONFIRMED ∨
          blockHeight < tx.blockHeight

theorem ordered_setTxUnconfirmedAfter
    {blockHeight now : Nat}
    (hOrdered : Ordered wallet)
    (hClear : ClearAbove wallet blockHeight)
    (hSet :
      wallet.setTxUnconfirmedAfter keys blockHeight now =
        some next) :
    Ordered next := by
  rcases setTxUnconfirmedAfter_cases hSet with
    ⟨front, back, hList, hBack, hFront, hNext⟩
  have hAscending := hOrdered.ascending
  have hDistinct := hOrdered.distinct
  rw [hList, List.pairwise_append] at hAscending
  rw [hList, List.nodup_append] at hDistinct
  have hBelow := le_of_getLast? hAscending.1 hFront
  have hGet :
      ∀ hash,
        (back.reverse.foldl setUnconfirmed
            wallet.allTx).get hash =
          if hash ∈ back then
            (wallet.allTx.get hash).map fun tx =>
              { tx with blockHeight := TX_UNCONFIRMED }
          else wallet.allTx.get hash := by
    intro hash
    simp only [get_foldl_setUnconfirmed, List.mem_reverse]
  have hFrontGet :
      ∀ hash ∈ front,
        (back.reverse.foldl setUnconfirmed
            wallet.allTx).get hash =
          wallet.allTx.get hash := by
    intro hash hHash
    rw [hGet, if_neg fun hBoth =>
      hDistinct.2.2 hash hHash hash hBoth rfl]
  have hBackHeight :
      ∀ hash ∈ back, ∀ tx,
        (back.reverse.foldl setUnconfirmed
            wallet.allTx).get hash = some tx →
          tx.blockHeight = TX_UNCONFIRMED := by
    intro hash hHash tx hTx
    rw [hGet, if_pos hHash, Option.map_eq_some_iff] at hTx
    rcases hTx with ⟨old, _, rfl⟩
    rfl
  have hMoved :
      Ordered
        { wallet with
          blockHeight := blockHeight
          allTx :=
            back.reverse.foldl setUnconfirmed wallet.allTx } :=
    { distinct := hOrdered.distinct
      entries := by
        intro hash hHash
        rcases hOrdered.entries hash hHash with ⟨tx, hTx⟩
        simp only [hGet, hTx]
        split_ifs <;> exact ⟨_, rfl⟩
      ascending := by
        simp only [hList]
        rw [List.pairwise_append]
        refine ⟨?_, ?_, ?_⟩
        · refine hAscending.1.imp_of_mem ?_
          intro hash later hHash hLater hNotAbove
          rw [NotAbove, hFrontGet hash hHash,
            hFrontGet later hLater]
          exact hNotAbove
        · refine List.pairwise_of_forall_mem_list ?_
          intro hash hHash later hLater tx other hTx hOther
          rw [hBackHeight hash hHash tx hTx,
            hBackHeight later hLater other hOther]
        · intro hash hHash later hLater tx other hTx hOther
          rw [hFrontGet hash hHash] at hTx
          rw [hBackHeight later hLater other hOther]
          rcases hBack later hLater with ⟨old, hOld, hAbove⟩
          have hLaterListed : later ∈ wallet.transactions := by
            rw [hList]
            exact List.mem_append_right _ hLater
          have hListed : hash ∈ wallet.transactions := by
            rw [hList]
            exact List.mem_append_left _ hHash
          rcases hClear ⟨later, hLaterListed, old, hOld, hAbove⟩
              hash hListed tx hTx with
            hLow | hHigh
          · exact hLow
          · exact
              absurd (hBelow hash hHash tx hTx)
                (not_le.mpr hHigh) }
  rcases hNext with ⟨-, rfl⟩ | ⟨-, hUpdate⟩
  · exact hMoved
  · exact ordered_updateBalance hMoved hUpdate

------------------------------------------------------------
-- Runs
------------------------------------------------------------

/- The condition on a call under which the list stays sorted. -/
def OrderStep
    (keys : WalletKeys Address)
    (wallet : BRWallet Hash Address) : Action Hash → Prop
  | .update txHashes blockHeight timestamp _ =>
      Settled keys wallet txHashes blockHeight timestamp
  | .setUnconfirmedAfter blockHeight _ =>
      ClearAbove wallet blockHeight
  | .register _ _ => True
  | .remove _ _ => True
  | .unusedAddrs _ _ => True

/- A new transaction is inserted at its place. -/
theorem Ordered.insertNew
    {tx : BRTransaction Hash}
    (hOrdered : Ordered wallet)
    (hNew : wallet.allTx.get tx.txHash = none)
    (hInsert :
      { wallet with allTx := wallet.allTx.add tx }.insertTx
          keys tx =
        some next) :
    Ordered next := by
  have hUnlisted : tx.txHash ∉ wallet.transactions := by
    intro hListed
    rcases hOrdered.entries _ hListed with ⟨other, hOther⟩
    rw [hNew] at hOther
    cases hOther
  have hAdded :
      Ordered
        { wallet with allTx := wallet.allTx.add tx } := by
    refine hOrdered.of_frame (List.Sublist.refl _) ?_
    intro hash hHash
    rw [KeyedSet.get_add,
      if_neg (ne_of_mem_of_not_mem hHash hUnlisted)]
  exact
    hAdded.insertTx (KeyedSet.get_add_self _ _) hUnlisted
      hInsert

/- One call keeps the list sorted. -/
theorem ordered_step
    {action : Action Hash}
    (hOrdered : Ordered wallet)
    (hCondition : OrderStep keys wallet action)
    (hStep : step keys wallet action = some next) :
    Ordered next := by
  cases action with
  | register tx now =>
      rcases registerTransaction_cases hStep with
        ⟨-, rfl⟩ | ⟨-, hNew, rfl⟩ |
          ⟨hRegisters, inserted, updated, hInsert, hUpdate,
            hFill⟩
      · exact hOrdered
      · refine hOrdered.of_frame (List.Sublist.refl _) ?_
        intro hash hHash
        rcases hOrdered.entries hash hHash with ⟨other, hOther⟩
        rw [KeyedSet.get_add, if_neg]
        rintro rfl
        rw [hNew] at hOther
        cases hOther
      · have hInserted :=
          hOrdered.insertNew hRegisters.2.1 hInsert
        exact
          (ordered_updateBalance hInserted hUpdate).of_same
            (sameRecords_fillChains hFill)
  | remove txHash now =>
      refine
        removeR_induction
          (fun middle next hash hMiddle _ hDrop => ?_) hOrdered
          hStep
      refine ordered_updateBalance ?_ hDrop
      exact
        hMiddle.of_frame (sublist_eraseLast _ _)
          fun _ _ => rfl
  | update txHashes blockHeight timestamp now =>
      exact ordered_updateTransactions hOrdered hCondition hStep
  | setUnconfirmedAfter blockHeight now =>
      exact
        ordered_setTxUnconfirmedAfter hOrdered hCondition hStep
  | unusedAddrs gapLimit internal =>
      simp only [step, Option.map_eq_some_iff] at hStep
      rcases hStep with ⟨⟨addrs, after⟩, hCall, rfl⟩
      exact hOrdered.of_same (sameRecords_unusedAddrs hCall)

theorem ordered_new
    {transactions : List (BRTransaction Hash)}
    {now : Nat}
    (hNew : new keys transactions now = some wallet) :
    Ordered wallet := by
  rcases new_cases hNew with
    ⟨added, filled, hAdded, hFilled, hUpdated⟩
  have hBlank :
      Ordered
        (blank (UInt64.ofNat (TX_FEE_PER_KB * 10)) :
          BRWallet Hash Address) :=
    { distinct := List.nodup_nil
      entries := by
        intro hash hHash
        cases hHash
      ascending := List.Pairwise.nil }
  have hStart : Ordered added := by
    refine
      Run.run_preserves Ordered
        (fun state tx next hState hStep => ?_) hBlank hAdded
    rcases addInitial_cases hStep with
      rfl | ⟨hUnknown, inserted, hInsert, rfl⟩
    · exact hState
    · exact
        (hState.insertNew hUnknown hInsert).of_same ⟨rfl, rfl⟩
  exact
    ordered_updateBalance
      (hStart.of_same (sameRecords_fillChains hFilled)) hUpdated

/-
  The list is sorted, and so the scans from its end find all
  the transactions that they look for.
-/
structure OrderLaw
    (keys : WalletKeys Address)
    (wallet : BRWallet Hash Address) : Prop where
  ordered : Ordered wallet
  unconfirmedBefore :
    ∀ txCount blockHeight,
      let found :=
        wallet.transactions.filter
          (isHigh wallet.allTx
            fun height => decide (blockHeight ≤ height))
      wallet.txUnconfirmedBefore txCount blockHeight =
        some
          (match txCount with
          | none => (found.length, [])
          | some txCount =>
              (min found.length txCount, found.take txCount))
  unconfirmedAfter :
    ∀ blockHeight now, ∃ next,
      wallet.setTxUnconfirmedAfter keys blockHeight now =
          some next ∧
        ∀ hash,
          next.allTx.get hash =
            if hash ∈ wallet.transactions ∧
                isHigh wallet.allTx
                  (fun height => decide (blockHeight < height))
                  hash then
              (wallet.allTx.get hash).map fun tx =>
                { tx with blockHeight := TX_UNCONFIRMED }
            else wallet.allTx.get hash

theorem orderLaw_of_run
    {transactions : List (BRTransaction Hash)}
    {now : Nat}
    {final : BRWallet Hash Address}
    {actions : List (Action Hash)}
    (hNew : new keys transactions now = some wallet)
    (hMeets :
      Run.Meets (step keys) (OrderStep keys) wallet actions)
    (hRun :
      Run.run (step keys) wallet actions = some final) :
    OrderLaw keys final := by
  have hOrdered : Ordered final :=
    Run.run_invariant Ordered
      (fun _ _ _ hState hCondition hStep =>
        ordered_step hState hCondition hStep)
      (ordered_new hNew) hMeets hRun
  exact
    { ordered := hOrdered
      unconfirmedBefore :=
        txUnconfirmedBefore_of_ordered hOrdered
      unconfirmedAfter :=
        setTxUnconfirmedAfter_of_ordered hOrdered }

------------------------------------------------------------
-- Sample Runs
------------------------------------------------------------

/- A signed input that spends an output. -/
def sampleInput
    (source : Nat)
    (index : UInt32) : BRTxInput Nat where
  txHash := source
  index := index
  amount := 0
  script := []
  signature := some [0]
  sequence := TXIN_SEQUENCE

/- A transaction with given inputs and outputs. -/
def sampleTx
    (hash : Nat)
    (inputs : List (BRTxInput Nat))
    (outputs : List BRTxOutput)
    (blockHeight : Nat) : BRTransaction Nat where
  txHash := hash
  version := 1
  inputs := inputs
  outputs := outputs
  lockTime := 0
  blockHeight := blockHeight
  timestamp := 0

/- A payment to the first external address, and a strange one. -/
def strangeList : List (BRTransaction Nat) :=
  [sampleTx 1 [sampleInput 100 0]
      [{ amount := 10000, script := [0, 0] }] TX_UNCONFIRMED,
    sampleTx 2 [sampleInput 101 0]
      [{ amount := 10000, script := [7] }] TX_UNCONFIRMED]

/- Both are put in the list. -/
def strangeWallet : BRWallet Nat (Bool × Nat) :=
  (new indexKeys strangeList 0).get (by decide +kernel)

theorem new_strangeList :
    new indexKeys strangeList 0 = some strangeWallet :=
  (Option.some_get _).symm

theorem orderLaw_of_run_strange :
    ∃ final,
      Run.run (step indexKeys) strangeWallet
          [.update [1] 5 7 0, .unusedAddrs 12 true] =
        some final ∧
      OrderLaw indexKeys final := by
  have hRun :
      (Run.run (step indexKeys) strangeWallet
        [.update [1] 5 7 0, .unusedAddrs 12 true]).isSome := by
    decide +kernel
  have hContains :
      ∀ tx, strangeWallet.allTx.get 1 = some tx →
        strangeWallet.containsTx indexKeys tx = true := by
    decide +kernel
  have hMeets :
      Run.Meets (step indexKeys) (OrderStep indexKeys)
        strangeWallet
        [.update [1] 5 7 0, .unusedAddrs 12 true] := by
    refine ⟨?_, fun _ _ => ⟨trivial, fun _ _ => trivial⟩⟩
    intro hash hHash _ tx hTx
    rw [List.mem_singleton.mp hHash] at hTx
    exact Or.inr (hContains tx hTx)
  rcases Option.isSome_iff_exists.mp hRun with ⟨final, hFinal⟩
  exact
    ⟨final, hFinal,
      orderLaw_of_run new_strangeList hMeets hFinal⟩

/-
  The second one does not concern the wallet.  When it is
  confirmed it is freed and its entry of the list dangles.
-/
theorem not_ordered_of_strange :
    ∃ final,
      Run.run (step indexKeys) strangeWallet
          [.update [2] 5 7 0] =
        some final ∧
      2 ∈ final.transactions ∧
      final.allTx.get 2 = none ∧
      ¬ Ordered final := by
  have hRun :
      (Run.run (step indexKeys) strangeWallet
          [.update [2] 5 7 0]).map
          (fun final =>
            (decide (2 ∈ final.transactions),
              (final.allTx.get 2).isNone)) =
        some (true, true) := by
    decide +kernel
  rw [Option.map_eq_some_iff] at hRun
  rcases hRun with ⟨final, hFinal, hEqual⟩
  rw [Prod.mk.injEq, decide_eq_true_eq,
    Option.isNone_iff_eq_none] at hEqual
  refine ⟨final, hFinal, hEqual.1, hEqual.2, ?_⟩
  intro hOrdered
  rcases hOrdered.entries 2 hEqual.1 with ⟨tx, hTx⟩
  rw [hEqual.2] at hTx
  cases hTx

end BRWallet

end PlusWallet
