import PlusWallet.Library.MapM
import PlusWallet.Library.Run
import PlusWallet.Wallet.Wallet

/-
  What each call can do to a wallet, said once.  The other
  files derive what the calls preserve from these.

  Main declarations:
    * `BRWallet.insertTx_cases`, `BRWallet.eraseLast_cases`
    * `BRWallet.registerTransaction_cases`
    * `BRWallet.removeR_induction`
    * `BRWallet.updateTx_cases`
    * `BRWallet.setTxUnconfirmedAfter_cases`
    * `BRWallet.unusedAddrs_cases`
-/

namespace PlusWallet

namespace BRWallet

variable {Hash Address : Type}
variable [DecidableEq Hash] [DecidableEq Address]
variable {keys : WalletKeys Address}
variable {wallet next : BRWallet Hash Address}

------------------------------------------------------------
-- The List of Transactions
------------------------------------------------------------

/- The comparison of a listed transaction with another one. -/
def Compares
    (keys : WalletKeys Address)
    (wallet : BRWallet Hash Address)
    (hash : Hash)
    (tx : BRTransaction Hash)
    (condition : Int → Prop) : Prop :=
  ∃ other order,
    wallet.allTx.get hash = some other ∧
      wallet.txCompare keys other tx = some order ∧
      condition order

/-
  A transaction is inserted in front of those at the end of
  the list that compare greater.
-/
theorem insertBehind_cases
    {tx : BRTransaction Hash}
    {hashes inserted : List Hash}
    (hInsert :
      insertBehind keys wallet tx hashes = some inserted) :
    ∃ later earlier,
      hashes = later ++ earlier ∧
        inserted = later ++ tx.txHash :: earlier ∧
        (∀ hash ∈ later,
          Compares keys wallet hash tx (0 < ·)) ∧
        ∀ hash, earlier.head? = some hash →
          Compares keys wallet hash tx (¬ 0 < ·) := by
  induction hashes generalizing inserted with
  | nil =>
      cases hInsert
      exact ⟨[], [], rfl, rfl, by simp, by simp⟩
  | cons hash hashes ih =>
      simp only [insertBehind, Option.bind_eq_bind,
        Option.bind_eq_some_iff] at hInsert
      rcases hInsert with ⟨other, hOther, order, hOrder, hRest⟩
      split_ifs at hRest with hGreater
      · rw [Option.bind_eq_some_iff] at hRest
        rcases hRest with ⟨rest, hBefore, hEqual⟩
        cases hEqual
        rcases ih hBefore with
          ⟨later, earlier, rfl, rfl, hLater, hEarlier⟩
        refine ⟨hash :: later, earlier, rfl, rfl, ?_, hEarlier⟩
        rw [List.forall_mem_cons]
        exact ⟨⟨other, order, hOther, hOrder, hGreater⟩, hLater⟩
      · cases hRest
        refine ⟨[], hash :: hashes, rfl, rfl, by simp, ?_⟩
        intro first hFirst
        cases hFirst
        exact ⟨other, order, hOther, hOrder, hGreater⟩

theorem insertTx_cases
    {tx : BRTransaction Hash}
    (hInsert : wallet.insertTx keys tx = some next) :
    ∃ front back,
      wallet.transactions = front ++ back ∧
        next =
          { wallet with
            transactions := front ++ tx.txHash :: back } ∧
        (∀ hash ∈ back,
          Compares keys wallet hash tx (0 < ·)) ∧
        ∀ hash, front.getLast? = some hash →
          Compares keys wallet hash tx (¬ 0 < ·) := by
  simp only [insertTx, Option.bind_eq_bind,
    Option.bind_eq_some_iff] at hInsert
  rcases hInsert with ⟨inserted, hBehind, hEqual⟩
  cases hEqual
  rcases insertBehind_cases hBehind with
    ⟨later, earlier, hReverse, rfl, hLater, hEarlier⟩
  refine ⟨earlier.reverse, later.reverse, ?_, ?_, ?_, ?_⟩
  · rw [← List.reverse_append, ← hReverse,
      List.reverse_reverse]
  · simp
  · intro hash hHash
    exact hLater hash (List.mem_reverse.mp hHash)
  · intro hash hHash
    rw [List.getLast?_reverse] at hHash
    exact hEarlier hash hHash

/- The transaction comes to the list, and nothing leaves it. -/
theorem perm_insertTx
    {tx : BRTransaction Hash}
    (hInsert : wallet.insertTx keys tx = some next) :
    next.transactions.Perm
      (tx.txHash :: wallet.transactions) := by
  rcases insertTx_cases hInsert with
    ⟨front, back, hList, rfl, -, -⟩
  rw [hList]
  exact List.perm_middle

omit [DecidableEq Address] in
theorem sublist_eraseLast
    (transactions : List Hash)
    (hash : Hash) :
    (eraseLast transactions hash).Sublist transactions := by
  have hSublist :=
    (List.erase_sublist (a := hash)
      (l := transactions.reverse)).reverse
  rwa [List.reverse_reverse] at hSublist

omit [DecidableEq Address] in
theorem mem_eraseLast
    {transactions : List Hash}
    (hDistinct : transactions.Nodup)
    {hash other : Hash} :
    other ∈ eraseLast transactions hash ↔
      other ≠ hash ∧ other ∈ transactions := by
  rw [eraseLast, List.mem_reverse,
    (List.nodup_reverse.mpr hDistinct).mem_erase_iff,
    List.mem_reverse]

omit [DecidableEq Address] in
/- An entry that is dropped can be put back in front. -/
theorem perm_cons_eraseLast
    {transactions : List Hash}
    {hash : Hash}
    (hMem : hash ∈ transactions) :
    (hash :: eraseLast transactions hash).Perm
      transactions := by
  have hErase :=
    List.perm_cons_erase (List.mem_reverse.mpr hMem)
  have hBack := (List.reverse_perm
    (transactions.reverse.erase hash)).cons hash
  exact
    (hBack.trans hErase.symm).trans
      (List.reverse_perm transactions)

omit [DecidableEq Address] in
/- The last entry that equals a hash is dropped, if any. -/
theorem eraseLast_cases
    (transactions : List Hash)
    (hash : Hash) :
    (hash ∉ transactions ∧
        eraseLast transactions hash = transactions) ∨
      ∃ front back,
        transactions = front ++ hash :: back ∧
          hash ∉ back ∧
          eraseLast transactions hash = front ++ back := by
  by_cases hMem : hash ∈ transactions
  · right
    rcases List.exists_erase_eq
        (List.mem_reverse.mpr hMem) with
      ⟨later, earlier, hLater, hReverse, hErase⟩
    refine ⟨earlier.reverse, later.reverse, ?_, ?_, ?_⟩
    · have hAgain := congrArg List.reverse hReverse
      simpa using hAgain
    · simpa using hLater
    · rw [eraseLast, hErase, List.reverse_append]
  · left
    refine ⟨hMem, ?_⟩
    rw [eraseLast,
      List.erase_of_not_mem (by simpa using hMem),
      List.reverse_reverse]

------------------------------------------------------------
-- The Balance
------------------------------------------------------------

theorem updateBalance_cases
    {now : Nat}
    (hUpdate : wallet.updateBalance keys now = some next) :
    ∃ txs,
      wallet.listed = some txs ∧
        next =
          wallet.setPass (passAll (wallet.reads keys now) txs) := by
  simp only [updateBalance, Option.bind_eq_bind,
    Option.bind_eq_some_iff] at hUpdate
  rcases hUpdate with ⟨txs, hListed, hEqual⟩
  exact ⟨txs, hListed, (Option.some.inj hEqual).symm⟩

/- The balance is computed when every entry is known. -/
theorem updateBalance_of_entries
    (hEntries :
      ∀ hash ∈ wallet.transactions, ∃ tx,
        wallet.allTx.get hash = some tx)
    (now : Nat) :
    ∃ next, wallet.updateBalance keys now = some next := by
  rcases MapM.exists_of_forall hEntries with ⟨txs, hTxs⟩
  rw [updateBalance, listed, hTxs]
  exact ⟨_, rfl⟩

------------------------------------------------------------
-- Registering
------------------------------------------------------------

/- The call puts the transaction in the list. -/
def Registers
    (keys : WalletKeys Address)
    (wallet : BRWallet Hash Address)
    (tx : BRTransaction Hash) : Prop :=
  tx.isSigned = true ∧ wallet.allTx.get tx.txHash = none ∧
    wallet.containsTx keys tx = true

theorem registerTransaction_cases
    {tx : BRTransaction Hash}
    {now : Nat}
    (hRegister :
      wallet.registerTransaction keys tx now = some next) :
    (¬ Registers keys wallet tx ∧ next = wallet) ∨
      (¬ Registers keys wallet tx ∧
        wallet.allTx.get tx.txHash = none ∧
        next = { wallet with allTx := wallet.allTx.add tx }) ∨
      (Registers keys wallet tx ∧
        ∃ inserted updated,
          { wallet with allTx := wallet.allTx.add tx }.insertTx
              keys tx =
            some inserted ∧
          inserted.updateBalance keys now = some updated ∧
          updated.fillChains keys = some next) := by
  rw [registerTransaction] at hRegister
  split_ifs at hRegister with hSigned hKnown hContains hHeight
  · left
    refine ⟨?_, (Option.some.inj hRegister).symm⟩
    intro hRegisters
    simp [hRegisters.1] at hSigned
  · left
    refine ⟨?_, (Option.some.inj hRegister).symm⟩
    intro hRegisters
    simp [hRegisters.2.1] at hKnown
  · right; right
    simp only [Option.bind_eq_bind, Option.bind_eq_some_iff]
      at hRegister
    rcases hRegister with
      ⟨inserted, hInsert, updated, hUpdate, hFill⟩
    refine ⟨⟨?_, ?_, hContains⟩, inserted, updated, hInsert,
      hUpdate, hFill⟩
    · simpa using hSigned
    · simpa using hKnown
  · right; left
    refine ⟨fun hRegisters => hContains hRegisters.2.2, ?_,
      (Option.some.inj hRegister).symm⟩
    simpa using hKnown
  · left
    exact ⟨fun hRegisters => hContains hRegisters.2.2,
      (Option.some.inj hRegister).symm⟩

------------------------------------------------------------
-- Removing
------------------------------------------------------------

/-
  The one change that removing makes, again and again: drop
  an entry of the list and compute the balance.
-/
theorem removeR_induction
    {now : Nat}
    {motive : BRWallet Hash Address → Prop}
    (hDrop :
      ∀ wallet next hash, motive wallet →
        (wallet.allTx.get hash).isSome →
        updateBalance keys
            { wallet with
              transactions :=
                eraseLast wallet.transactions hash }
            now =
          some next →
        motive next)
    {bound : Nat}
    {hash : Hash}
    (hWallet : motive wallet)
    (hRemove :
      removeR keys now bound wallet hash = some next) :
    motive next := by
  induction bound generalizing wallet hash next with
  | zero => cases hRemove
  | succ bound ih =>
      rw [removeR] at hRemove
      cases hTx : wallet.allTx.get hash with
      | none =>
          rw [hTx] at hRemove
          cases hRemove
          exact hWallet
      | some tx =>
          rw [hTx] at hRemove
          simp only [Option.bind_eq_bind,
            Option.bind_eq_some_iff] at hRemove
          rcases hRemove with ⟨hashes, -, hRest⟩
          split_ifs at hRest with hNone
          · exact hDrop wallet next hash hWallet (by simp [hTx])
              hRest
          · rw [Option.bind_eq_some_iff] at hRest
            rcases hRest with ⟨middle, hDependents, hSelf⟩
            have hMiddle : motive middle :=
              Run.run_preserves motive
                (fun state action after hState hStep =>
                  ih hState hStep)
                hWallet hDependents
            exact ih hMiddle hSelf

------------------------------------------------------------
-- Updating
------------------------------------------------------------

/- A transaction at another height and time. -/
def moveTx
    (tx : BRTransaction Hash)
    (blockHeight timestamp : Nat) : BRTransaction Hash :=
  { tx with
    timestamp := timestamp
    blockHeight := blockHeight }

theorem updateTx_cases
    {blockHeight timestamp : Nat}
    {needsUpdate after : Bool}
    {hash : Hash}
    (hUpdate :
      updateTx keys blockHeight timestamp
          (wallet, needsUpdate) hash =
        some (next, after)) :
    (next = wallet ∧ after = needsUpdate ∧
        ∀ tx, wallet.allTx.get hash = some tx →
          tx.blockHeight = blockHeight ∧
            tx.timestamp = timestamp) ∨
      ∃ tx,
        wallet.allTx.get hash = some tx ∧
        ¬ (tx.blockHeight = blockHeight ∧
            tx.timestamp = timestamp) ∧
        let tx := moveTx tx blockHeight timestamp
        let moved :=
          { wallet with allTx := wallet.allTx.add tx }
        (moved.containsTx keys tx = true ∧
          ((hash ∉ wallet.transactions ∧ next = moved) ∨
            (hash ∈ wallet.transactions ∧
              insertTx keys
                  { moved with
                    transactions :=
                      eraseLast wallet.transactions hash }
                  tx =
                some next)) ∧
          after =
            (needsUpdate ||
              decide (hash ∈ next.pendingTx) ||
              decide (hash ∈ next.invalidTx))) ∨
        (moved.containsTx keys tx = false ∧
          after = needsUpdate ∧
          ((blockHeight = TX_UNCONFIRMED ∧ next = moved) ∨
            (blockHeight ≠ TX_UNCONFIRMED ∧
              next =
                { moved with
                  allTx := moved.allTx.remove hash }))) := by
  cases hTx : wallet.allTx.get hash with
  | none =>
      simp only [updateTx, hTx] at hUpdate
      cases hUpdate
      exact Or.inl ⟨rfl, rfl, by simp⟩
  | some tx =>
      have hHash : tx.txHash = hash := KeyedSet.key_of_get hTx
      subst hHash
      simp only [updateTx, hTx] at hUpdate
      split_ifs at hUpdate with hSame hContains hListed hHeight
      · cases hUpdate
        refine Or.inl ⟨rfl, rfl, ?_⟩
        rintro _ ⟨⟩
        exact hSame
      · simp only [Option.bind_eq_bind,
          Option.bind_eq_some_iff] at hUpdate
        rcases hUpdate with ⟨inserted, hInsert, hEqual⟩
        cases hEqual
        refine
          Or.inr ⟨tx, rfl, hSame, Or.inl ⟨hContains, ?_, rfl⟩⟩
        exact Or.inr ⟨hListed, hInsert⟩
      · cases hUpdate
        refine
          Or.inr ⟨tx, rfl, hSame, Or.inl ⟨hContains, ?_, rfl⟩⟩
        exact Or.inl ⟨hListed, rfl⟩
      · cases hUpdate
        exact
          Or.inr
            ⟨tx, rfl, hSame, Or.inr
              ⟨Bool.eq_false_iff.mpr hContains, rfl,
                Or.inr ⟨hHeight, rfl⟩⟩⟩
      · cases hUpdate
        exact
          Or.inr
            ⟨tx, rfl, hSame, Or.inr
              ⟨Bool.eq_false_iff.mpr hContains, rfl,
                Or.inl ⟨not_not.mp hHeight, rfl⟩⟩⟩

------------------------------------------------------------
-- Unconfirming
------------------------------------------------------------

/-
  The transactions at the end of a list whose heights pass a
  test, up to the first one that does not.
-/
def suffixWhile
    (allTx : TxSet Hash)
    (high : Nat → Bool) :
    List Hash → Option (List Hash)
  | [] => some []
  | hash :: before => do
      let tx ← allTx.get hash
      if high tx.blockHeight then
        let rest ← suffixWhile allTx high before
        some (hash :: rest)
      else some []

omit [DecidableEq Address] in
theorem suffixAbove_eq
    (blockHeight : Nat)
    (hashes : List Hash) :
    suffixAbove wallet blockHeight hashes =
      suffixWhile wallet.allTx
        (fun height => decide (blockHeight < height))
        hashes := by
  induction hashes with
  | nil => rfl
  | cons hash hashes ih =>
      simp only [suffixAbove, suffixWhile, ih,
        decide_eq_true_eq]

/- The scan stops at the first one that is not high. -/
theorem suffixWhile_cases
    {allTx : TxSet Hash}
    {high : Nat → Bool}
    {hashes above : List Hash}
    (hAbove : suffixWhile allTx high hashes = some above) :
    ∃ rest,
      hashes = above ++ rest ∧
        (∀ hash ∈ above, ∃ tx,
          allTx.get hash = some tx ∧
            high tx.blockHeight = true) ∧
        ∀ hash, rest.head? = some hash → ∃ tx,
          allTx.get hash = some tx ∧
            ¬ high tx.blockHeight = true := by
  induction hashes generalizing above with
  | nil =>
      cases hAbove
      exact ⟨[], rfl, by simp, by simp⟩
  | cons hash hashes ih =>
      simp only [suffixWhile, Option.bind_eq_bind,
        Option.bind_eq_some_iff] at hAbove
      rcases hAbove with ⟨tx, hTx, hRest⟩
      split_ifs at hRest with hHigher
      · rw [Option.bind_eq_some_iff] at hRest
        rcases hRest with ⟨before, hBefore, hEqual⟩
        cases hEqual
        rcases ih hBefore with ⟨rest, rfl, hAll, hFirst⟩
        refine ⟨rest, rfl, ?_, hFirst⟩
        rw [List.forall_mem_cons]
        exact ⟨⟨tx, hTx, hHigher⟩, hAll⟩
      · cases hRest
        refine ⟨hash :: hashes, rfl, by simp, ?_⟩
        intro first hFirst
        cases hFirst
        exact ⟨tx, hTx, hHigher⟩

theorem get_setUnconfirmed
    (allTx : TxSet Hash)
    (hash other : Hash) :
    (setUnconfirmed allTx hash).get other =
      if other = hash then
        (allTx.get other).map fun tx =>
          { tx with blockHeight := TX_UNCONFIRMED }
      else allTx.get other := by
  rw [setUnconfirmed]
  cases hTx : allTx.get hash with
  | none =>
      split_ifs with hSame
      · rw [hSame, hTx]
        rfl
      · rfl
  | some tx =>
      have hHash : tx.txHash = hash := KeyedSet.key_of_get hTx
      subst hHash
      rw [KeyedSet.get_add]
      split_ifs with hSame
      · rw [hSame, hTx]
        rfl
      · rfl

theorem get_foldl_setUnconfirmed
    (hashes : List Hash)
    (allTx : TxSet Hash)
    (other : Hash) :
    (hashes.foldl setUnconfirmed allTx).get other =
      if other ∈ hashes then
        (allTx.get other).map fun tx =>
          { tx with blockHeight := TX_UNCONFIRMED }
      else allTx.get other := by
  induction hashes generalizing allTx with
  | nil => simp
  | cons hash hashes ih =>
      rw [List.foldl_cons, ih, get_setUnconfirmed]
      by_cases hSame : other = hash
      · subst hSame
        cases allTx.get other <;> simp
      · simp [hSame]

theorem setTxUnconfirmedAfter_cases
    {blockHeight now : Nat}
    (hSet :
      wallet.setTxUnconfirmedAfter keys blockHeight now =
        some next) :
    ∃ front back,
      wallet.transactions = front ++ back ∧
        (∀ hash ∈ back, ∃ tx,
          wallet.allTx.get hash = some tx ∧
            blockHeight < tx.blockHeight) ∧
        (∀ hash, front.getLast? = some hash → ∃ tx,
          wallet.allTx.get hash = some tx ∧
            tx.blockHeight ≤ blockHeight) ∧
        let moved :=
          { wallet with
            blockHeight := blockHeight
            allTx :=
              back.reverse.foldl setUnconfirmed wallet.allTx }
        (back = [] ∧ next = moved) ∨
          (back ≠ [] ∧
            moved.updateBalance keys now = some next) := by
  simp only [setTxUnconfirmedAfter, Option.bind_eq_bind,
    Option.bind_eq_some_iff] at hSet
  rcases hSet with ⟨above, hAbove, hRest⟩
  rw [suffixAbove_eq] at hAbove
  rcases suffixWhile_cases hAbove with
    ⟨rest, hReverse, hAll, hFirst⟩
  simp only [decide_eq_true_eq, not_lt] at hAll hFirst
  have hTransactions :
      wallet.transactions = rest.reverse ++ above.reverse := by
    have hAgain := congrArg List.reverse hReverse
    simpa using hAgain
  refine
    ⟨rest.reverse, above.reverse, hTransactions, ?_, ?_, ?_⟩
  · intro hash hHash
    exact hAll hash (List.mem_reverse.mp hHash)
  · intro hash hHash
    rw [List.getLast?_reverse] at hHash
    exact hFirst hash hHash
  · simp only [List.reverse_reverse, ne_eq,
      List.reverse_eq_nil_iff]
    split_ifs at hRest with hNone
    · exact Or.inl ⟨hNone, (Option.some.inj hRest).symm⟩
    · exact Or.inr ⟨hNone, hRest⟩

------------------------------------------------------------
-- Addresses
------------------------------------------------------------

/- One of the two chains. -/
def chain
    (wallet : BRWallet Hash Address)
    (internal : Bool) : List Address :=
  if internal then wallet.internalChain
  else wallet.externalChain

omit [DecidableEq Hash] in
/- The generating loop adds addresses at the end. -/
theorem prefix_generateAddrs
    {derive : Nat → Option Address}
    {usedAddrs : Finset Address}
    {gapLimit rounds i last : Nat}
    {addrChain extended : List Address}
    (hGenerate :
      generateAddrs derive usedAddrs gapLimit rounds i
          addrChain =
        some (last, extended)) :
    addrChain <+: extended := by
  induction rounds generalizing i addrChain with
  | zero => cases hGenerate
  | succ rounds ih =>
      rw [generateAddrs] at hGenerate
      split_ifs at hGenerate
      · cases hNext : derive addrChain.length with
        | none =>
            rw [hNext] at hGenerate
            cases hGenerate
            exact List.prefix_refl _
        | some address =>
            rw [hNext] at hGenerate
            exact
              (List.prefix_append _ _).trans (ih hGenerate)
      · cases hGenerate
        exact List.prefix_refl _

omit [DecidableEq Hash] in
theorem unusedAddrs_cases
    {addrs : List Address}
    {gapLimit : Nat}
    {internal : Bool}
    (hUnused :
      wallet.unusedAddrs keys gapLimit internal =
        some (addrs, next)) :
    ∃ extended,
      wallet.chain internal <+: extended ∧
        next =
          wallet.setChain keys internal
            (wallet.chain internal).length extended := by
  simp only [unusedAddrs, Option.bind_eq_bind,
    Option.bind_eq_some_iff] at hUnused
  rcases hUnused with ⟨⟨last, extended⟩, hGenerate, hEqual⟩
  cases hEqual
  exact ⟨extended, prefix_generateAddrs hGenerate, rfl⟩

/- What a chain call leaves alone. -/
structure SameRecords
    (wallet next : BRWallet Hash Address) : Prop where
  transactions : next.transactions = wallet.transactions
  allTx : next.allTx = wallet.allTx

omit [DecidableEq Hash] in
theorem sameRecords_setChain
    (wallet : BRWallet Hash Address)
    (internal : Bool)
    (startCount : Nat)
    (extended : List Address) :
    SameRecords wallet
      (wallet.setChain keys internal startCount extended) := by
  cases internal <;>
    simp only [setChain, Bool.false_eq_true, if_true,
      if_false] <;> split_ifs <;> exact ⟨rfl, rfl⟩

omit [DecidableEq Hash] in
theorem sameRecords_unusedAddrs
    {addrs : List Address}
    {gapLimit : Nat}
    {internal : Bool}
    (hUnused :
      wallet.unusedAddrs keys gapLimit internal =
        some (addrs, next)) :
    SameRecords wallet next := by
  rcases unusedAddrs_cases hUnused with ⟨extended, -, rfl⟩
  exact sameRecords_setChain _ _ _ _

omit [DecidableEq Hash] in
theorem fillChains_cases
    (hFill : wallet.fillChains keys = some next) :
    ∃ middle addrs others,
      wallet.unusedAddrs keys SEQUENCE_GAP_LIMIT_EXTERNAL
          false =
        some (addrs, middle) ∧
      middle.unusedAddrs keys SEQUENCE_GAP_LIMIT_INTERNAL
          true =
        some (others, next) := by
  simp only [fillChains, Option.bind_eq_bind,
    Option.bind_eq_some_iff] at hFill
  rcases hFill with
    ⟨⟨addrs, middle⟩, hExternal, ⟨others, last⟩, hInternal,
      hLast⟩
  cases hLast
  exact ⟨middle, addrs, others, hExternal, hInternal⟩

omit [DecidableEq Hash] in
theorem sameRecords_fillChains
    (hFill : wallet.fillChains keys = some next) :
    SameRecords wallet next := by
  rcases fillChains_cases hFill with
    ⟨middle, addrs, others, hExternal, hInternal⟩
  have hFirst := sameRecords_unusedAddrs hExternal
  have hSecond := sameRecords_unusedAddrs hInternal
  exact
    ⟨hSecond.transactions.trans hFirst.transactions,
      hSecond.allTx.trans hFirst.allTx⟩

------------------------------------------------------------
-- Creating
------------------------------------------------------------

theorem addInitial_cases
    {tx : BRTransaction Hash}
    (hAdd : addInitial keys wallet tx = some next) :
    next = wallet ∨
      (wallet.allTx.get tx.txHash = none ∧
        ∃ inserted,
          { wallet with allTx := wallet.allTx.add tx }.insertTx
              keys tx =
            some inserted ∧
          next =
            { inserted with
              usedAddrs :=
                inserted.usedAddrs ∪
                  (tx.outputs.filterMap
                    keys.outputAddress).toFinset }) := by
  rw [addInitial] at hAdd
  split_ifs at hAdd with hSkip
  · exact Or.inl (Option.some.inj hAdd).symm
  · right
    rw [Bool.or_eq_true, not_or] at hSkip
    simp only [Option.bind_eq_bind,
      Option.bind_eq_some_iff] at hAdd
    rcases hAdd with ⟨inserted, hInsert, hEqual⟩
    refine
      ⟨?_, inserted, hInsert, (Option.some.inj hEqual).symm⟩
    simpa using hSkip.2

theorem new_cases
    {transactions : List (BRTransaction Hash)}
    {now : Nat}
    (hNew : new keys transactions now = some wallet) :
    ∃ added filled,
      transactions.foldlM (addInitial keys)
          (blank (UInt64.ofNat (TX_FEE_PER_KB * 10))) =
        some added ∧
      added.fillChains keys = some filled ∧
      filled.updateBalance keys now = some wallet := by
  simp only [new, Option.bind_eq_bind,
    Option.bind_eq_some_iff] at hNew
  rcases hNew with
    ⟨added, hAdded, filled, hFilled, updated, hUpdated, hNew⟩
  have hSame : updated = wallet := by
    split at hNew
    · exact Option.some.inj hNew
    · split_ifs at hNew
      exact Option.some.inj hNew
  rw [← hSame]
  exact ⟨added, filled, hAdded, hFilled, hUpdated⟩

end BRWallet

end PlusWallet
