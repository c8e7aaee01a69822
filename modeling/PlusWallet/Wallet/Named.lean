import PlusWallet.Wallet.Events
import PlusWallet.Wallet.Order

/-
  Which hashes the update of transactions names to its
  callback: those whose records change, as long as the listed
  ones among the given are those that concern the wallet.

  Main declarations:
    * `BRWallet.Attached`
    * `BRWallet.Rounds`
    * `BRWallet.updateNotify_cases`
    * `BRWallet.setUnconfirmedNotify_cases`
-/

namespace PlusWallet

namespace BRWallet

variable {Hash Address : Type}
variable [DecidableEq Hash] [DecidableEq Address]
variable {keys : WalletKeys Address}
variable {wallet middle next : BRWallet Hash Address}

------------------------------------------------------------
-- Keeping Transactions
------------------------------------------------------------

omit [DecidableEq Hash] in
/- More addresses are paid when more are known. -/
theorem paysWallet_of_subset
    (hAddrs : wallet.allAddrs ⊆ next.allAddrs)
    {output : BRTxOutput}
    (hPays : wallet.paysWallet keys output = true) :
    next.paysWallet keys output = true := by
  unfold paysWallet at hPays ⊢
  split at hPays
  · apply decide_eq_true
    apply hAddrs
    exact of_decide_eq_true hPays
  · cases hPays

theorem Keeps.of_same
    (hAddrs : next.allAddrs = wallet.allAddrs)
    (hSame : SameRecords wallet next) :
    Keeps keys wallet next where
  addrs := by rw [hAddrs]
  outputs := by
    intro hash parent hParent
    rw [hSame.allTx]
    exact Or.inl ⟨parent, hParent, rfl⟩

theorem Keeps.trans
    (hFirst : Keeps keys wallet middle)
    (hSecond : Keeps keys middle next) :
    Keeps keys wallet next where
  addrs := hFirst.addrs.trans hSecond.addrs
  outputs := by
    intro hash parent hParent
    rcases hFirst.outputs hash parent hParent with
      ⟨kept, hKept, hSame⟩ | hNone
    · rcases hSecond.outputs hash kept hKept with
        ⟨last, hLast, hLastSame⟩ | hNone
      · exact Or.inl ⟨last, hLast, hLastSame.trans hSame⟩
      · right
        intro output hOutput
        rw [← hSame] at hOutput
        rw [Bool.eq_false_iff]
        intro hPays
        have hStill := paysWallet_of_subset hFirst.addrs hPays
        rw [hNone output hOutput] at hStill
        cases hStill
    · exact Or.inr hNone

------------------------------------------------------------
-- The Loop
------------------------------------------------------------

/-
  Of the known transactions among the given, those that change
  are in the list if and only if they concern the wallet.
-/
def Attached
    (keys : WalletKeys Address)
    (wallet : BRWallet Hash Address)
    (txHashes : List Hash)
    (blockHeight timestamp : Nat) : Prop :=
  ∀ hash ∈ txHashes, ∀ tx,
    wallet.allTx.get hash = some tx →
      (tx.blockHeight = blockHeight ∧
          tx.timestamp = timestamp) ∨
        (hash ∈ wallet.transactions ↔
          wallet.containsTx keys tx = true)

/- What some rounds have done to a wallet, and have named. -/
structure Rounds
    (keys : WalletKeys Address)
    (blockHeight timestamp : Nat)
    (wallet next : BRWallet Hash Address)
    (named : List Hash) : Prop where
  perm : next.transactions.Perm wallet.transactions
  nodup : named.Nodup
  listed : ∀ hash ∈ named, hash ∈ wallet.transactions
  records :
    ∀ hash ∈ wallet.transactions,
      next.allTx.get hash =
        if hash ∈ named then
          (wallet.allTx.get hash).map fun tx =>
            moveTx tx blockHeight timestamp
        else wallet.allTx.get hash
  keeps : Keeps keys wallet next
  addrs : next.allAddrs = wallet.allAddrs
  old :
    ∀ hash kept, next.allTx.get hash = some kept →
      ∃ tx,
        wallet.allTx.get hash = some tx ∧
          (kept = tx ∨ kept = moveTx tx blockHeight timestamp)

section Loop

variable {blockHeight timestamp : Nat}
variable {named : List Hash}

theorem Rounds.start
    (hAddrs : next.allAddrs = wallet.allAddrs)
    (hSame : SameRecords wallet next) :
    Rounds keys blockHeight timestamp wallet next [] where
  perm := by rw [hSame.transactions]
  nodup := List.nodup_nil
  listed := nofun
  records := by
    intro hash _
    rw [hSame.allTx]
    rfl
  keeps := Keeps.of_same hAddrs hSame
  addrs := hAddrs
  old := by
    intro hash kept hKept
    rw [hSame.allTx] at hKept
    exact ⟨kept, hKept, Or.inl rfl⟩

/- Nothing comes to the wallet either. -/
theorem Rounds.keeps_symm
    (hRounds :
      Rounds keys blockHeight timestamp wallet next named) :
    Keeps keys next wallet where
  addrs := by rw [hRounds.addrs]
  outputs := by
    intro hash kept hKept
    left
    rcases hRounds.old hash kept hKept with
      ⟨tx, hTx, rfl | rfl⟩
    · exact ⟨kept, hTx, rfl⟩
    · exact ⟨tx, hTx, rfl⟩

/-
  A transaction that still has to change is one of the start,
  and it concerns the wallet as it did there.
-/
theorem Rounds.pending
    (hRounds :
      Rounds keys blockHeight timestamp wallet next named)
    {hash : Hash}
    {tx : BRTransaction Hash}
    (hTx : next.allTx.get hash = some tx)
    (hMoves :
      ¬ (tx.blockHeight = blockHeight ∧
          tx.timestamp = timestamp)) :
    wallet.allTx.get hash = some tx ∧ hash ∉ named := by
  rcases hRounds.old hash tx hTx with ⟨old, hOld, rfl | rfl⟩
  · refine ⟨hOld, ?_⟩
    intro hNamed
    have hRecord :=
      hRounds.records hash (hRounds.listed hash hNamed)
    rw [if_pos hNamed, hTx, hOld, Option.map_some,
      Option.some.injEq] at hRecord
    apply hMoves
    rw [hRecord]
    exact ⟨rfl, rfl⟩
  · exact absurd ⟨rfl, rfl⟩ hMoves

/- A listed transaction moves and is named. -/
theorem Rounds.add
    (hRounds :
      Rounds keys blockHeight timestamp wallet middle named)
    {hash : Hash}
    {tx : BRTransaction Hash}
    (hTx : middle.allTx.get hash = some tx)
    (hMoves :
      ¬ (tx.blockHeight = blockHeight ∧
          tx.timestamp = timestamp))
    (hListed : hash ∈ wallet.transactions)
    (hPerm : next.transactions.Perm middle.transactions)
    (hAddrs : next.allAddrs = middle.allAddrs)
    (hAllTx :
      next.allTx =
        middle.allTx.add (moveTx tx blockHeight timestamp)) :
    Rounds keys blockHeight timestamp wallet next
      (named ++ [hash]) := by
  rcases hRounds.pending hTx hMoves with ⟨hOld, hUnnamed⟩
  constructor
  · exact hPerm.trans hRounds.perm
  · rw [List.nodup_append]
    refine ⟨hRounds.nodup, List.nodup_singleton _, ?_⟩
    intro other hOther last hLast
    rw [List.mem_singleton.mp hLast]
    exact ne_of_mem_of_not_mem hOther hUnnamed
  · intro other hOther
    rcases List.mem_append.mp hOther with hBefore | hLast
    · exact hRounds.listed other hBefore
    · rw [List.mem_singleton.mp hLast]
      exact hListed
  · intro other hOther
    rw [hAllTx, get_moved hTx]
    by_cases hSame : other = hash
    · rw [if_pos hSame, hSame, hOld, if_pos (by simp)]
      rfl
    · rw [if_neg hSame, hRounds.records other hOther]
      apply if_congr _ rfl rfl
      simp [hSame]
  · exact hRounds.keeps.trans (keeps_moved hTx hAddrs hAllTx)
  · exact hAddrs.trans hRounds.addrs
  · intro other kept hKept
    rw [hAllTx, get_moved hTx] at hKept
    split_ifs at hKept with hSame
    · cases hKept
      rw [hSame]
      exact ⟨tx, hOld, Or.inr rfl⟩
    · exact hRounds.old other kept hKept

/- A transaction that is not listed moves or is freed. -/
theorem Rounds.skip
    (hRounds :
      Rounds keys blockHeight timestamp wallet middle named)
    {hash : Hash}
    (hUnlisted : hash ∉ wallet.transactions)
    (hList : next.transactions = middle.transactions)
    (hAddrs : next.allAddrs = middle.allAddrs)
    (hKeeps : Keeps keys middle next)
    (hOthers :
      ∀ other, other ≠ hash →
        next.allTx.get other = middle.allTx.get other)
    (hSelf :
      ∀ kept, next.allTx.get hash = some kept →
        ∃ tx,
          wallet.allTx.get hash = some tx ∧
            kept = moveTx tx blockHeight timestamp) :
    Rounds keys blockHeight timestamp wallet next named := by
  constructor
  · rw [hList]
    exact hRounds.perm
  · exact hRounds.nodup
  · exact hRounds.listed
  · intro other hOther
    rw [hOthers other (ne_of_mem_of_not_mem hOther hUnlisted)]
    exact hRounds.records other hOther
  · exact hRounds.keeps.trans hKeeps
  · exact hAddrs.trans hRounds.addrs
  · intro other kept hKept
    by_cases hSame : other = hash
    · rw [hSame] at hKept ⊢
      rcases hSelf kept hKept with ⟨tx, hTx, hMoved⟩
      exact ⟨tx, hTx, Or.inr hMoved⟩
    · rw [hOthers other hSame] at hKept
      exact hRounds.old other kept hKept

/- A round names the hash or leaves the listed records alone. -/
theorem Rounds.updateNotifyTx
    {txHashes : List Hash}
    {needsUpdate : Bool}
    {hash : Hash}
    {after : (BRWallet Hash Address × Bool) × List Hash}
    (hAttached :
      Attached keys wallet txHashes blockHeight timestamp)
    (hRounds :
      Rounds keys blockHeight timestamp wallet middle named)
    (hHash : hash ∈ txHashes)
    (hUpdate :
      BRWallet.updateNotifyTx keys blockHeight timestamp
          ((middle, needsUpdate), named) hash =
        some after) :
    Rounds keys blockHeight timestamp wallet after.1.1
      after.2 := by
  simp only [BRWallet.updateNotifyTx, Option.bind_eq_bind,
    Option.bind_eq_some_iff] at hUpdate
  rcases hUpdate with ⟨⟨next, flag⟩, hRound, hEqual⟩
  cases hEqual
  dsimp only
  rcases updateTx_cases hRound with
    ⟨rfl, -, hSame⟩ | ⟨tx, hTx, hMoves, hMoved⟩
  · have hUnnamed :
        isNamed keys blockHeight timestamp next hash =
          false := by
      unfold isNamed
      cases hTx : next.allTx.get hash with
      | none => rfl
      | some tx => exact if_pos (hSame tx hTx)
    rw [hUnnamed]
    exact hRounds
  · have hOld := (hRounds.pending hTx hMoves).1
    have hNamed :
        isNamed keys blockHeight timestamp middle hash =
          containsTx keys
            { middle with
              allTx :=
                middle.allTx.add
                  (moveTx tx blockHeight timestamp) }
            (moveTx tx blockHeight timestamp) := by
      unfold isNamed
      rw [hTx]
      exact if_neg hMoves
    have hListed :
        hash ∈ wallet.transactions ↔
          wallet.containsTx keys tx = true := by
      rcases hAttached hash hHash tx hOld with hSame | hListed
      · exact absurd hSame hMoves
      · exact hListed
    rw [hNamed]
    rcases hMoved with
      ⟨hContains, hNext, -⟩ | ⟨hNot, -, hNext⟩
    · -- the transaction concerns the wallet, so it is listed
      have hBack :
          Keeps keys
            { middle with
              allTx :=
                middle.allTx.add
                  (moveTx tx blockHeight timestamp) }
            middle :=
        ⟨Finset.Subset.refl _, by
          intro other parent hParent
          rw [get_moved hTx] at hParent
          split_ifs at hParent with hSame
          · cases hParent
            rw [hSame]
            exact Or.inl ⟨tx, hTx, rfl⟩
          · exact Or.inl ⟨parent, hParent, rfl⟩⟩
      have hMember : hash ∈ wallet.transactions := by
        apply hListed.mpr
        exact
          containsTx_of_keeps (hBack.trans hRounds.keeps_symm)
            (rfl :
              tx.inputs =
                (moveTx tx blockHeight timestamp).inputs)
            rfl hContains
      rw [hContains, if_pos rfl]
      rcases hNext with ⟨hUnlisted, -⟩ | ⟨hIn, hInsert⟩
      · exact
          absurd (hRounds.perm.mem_iff.mpr hMember) hUnlisted
      · have hKey : tx.txHash = hash :=
          KeyedSet.key_of_get hTx
        have hPerm := perm_insertTx hInsert
        rcases insertTx_cases hInsert with
          ⟨front, back, -, rfl, -, -⟩
        refine hRounds.add hTx hMoves hMember ?_ rfl rfl
        refine hPerm.trans ?_
        change
          (tx.txHash ::
            eraseLast middle.transactions hash).Perm _
        rw [hKey]
        exact perm_cons_eraseLast hIn
    · -- the transaction is foreign, so it is not listed
      have hUnlisted : hash ∉ wallet.transactions := by
        intro hMember
        have hKeeps :
            Keeps keys middle
              { middle with
                allTx :=
                  middle.allTx.add
                    (moveTx tx blockHeight timestamp) } :=
          keeps_moved hTx rfl rfl
        have hStill :=
          containsTx_of_keeps (hRounds.keeps.trans hKeeps)
            (rfl :
              (moveTx tx blockHeight timestamp).inputs = _)
            rfl (hListed.mp hMember)
        rw [hNot] at hStill
        cases hStill
      have hSelf :
          (middle.allTx.add
              (moveTx tx blockHeight timestamp)).get hash =
            some (moveTx tx blockHeight timestamp) := by
        rw [get_moved hTx, if_pos rfl]
      have hOthers :
          ∀ other, other ≠ hash →
            (middle.allTx.add
                (moveTx tx blockHeight timestamp)).get other =
              middle.allTx.get other := by
        intro other hOther
        rw [get_moved hTx, if_neg hOther]
      rw [hNot, if_neg (by decide)]
      rcases hNext with ⟨-, rfl⟩ | ⟨-, rfl⟩
      · refine
          hRounds.skip hUnlisted rfl rfl
            (keeps_moved hTx rfl rfl) hOthers ?_
        intro kept hKept
        rw [hSelf] at hKept
        cases hKept
        exact ⟨tx, hOld, rfl⟩
      · refine
          hRounds.skip hUnlisted rfl rfl
            (keeps_removed hTx hNot) ?_ ?_
        · intro other hOther
          rw [KeyedSet.get_remove, if_neg hOther,
            hOthers other hOther]
        · intro kept hKept
          rw [KeyedSet.get_remove, if_pos rfl] at hKept
          cases hKept

end Loop

------------------------------------------------------------
-- The Calls
------------------------------------------------------------

/- What an update names, and what it does to the records. -/
theorem updateNotify_cases
    {txHashes : List Hash}
    {blockHeight timestamp now : Nat}
    {events : List (TxEvent Hash)}
    (hAttached :
      Attached keys wallet txHashes blockHeight timestamp)
    (hUpdate :
      wallet.updateNotify keys txHashes blockHeight timestamp
          now =
        some (next, events)) :
    ∃ middle named,
      Rounds keys blockHeight timestamp wallet middle named ∧
        SameRecords middle next ∧
        events = updateEvents named blockHeight timestamp := by
  simp only [updateNotify, Option.bind_eq_bind,
    Option.bind_eq_some_iff] at hUpdate
  rcases hUpdate with
    ⟨⟨⟨middle, needsUpdate⟩, named⟩, hLoop, hRest⟩
  have hStart :
      Rounds keys blockHeight timestamp wallet
        { wallet with
          blockHeight := max wallet.blockHeight blockHeight }
        [] :=
    Rounds.start rfl ⟨rfl, rfl⟩
  have hRounds :
      Rounds keys blockHeight timestamp wallet middle named :=
    Run.run_invariant
      (fun state :
          (BRWallet Hash Address × Bool) × List Hash =>
        Rounds keys blockHeight timestamp wallet state.1.1
          state.2)
      (fun state hash after hState hHash hStep =>
        hState.updateNotifyTx hAttached hHash hStep)
      hStart
      (Run.Meets.of_mem (fun _ _ hHash => hHash) _) hLoop
  refine ⟨middle, named, hRounds, ?_⟩
  split_ifs at hRest
  · rw [Option.bind_eq_some_iff] at hRest
    rcases hRest with ⟨last, hLast, hEqual⟩
    cases hEqual
    rcases updateBalance_cases hLast with ⟨_, _, rfl⟩
    exact ⟨⟨rfl, rfl⟩, rfl⟩
  · cases hRest
    exact ⟨⟨rfl, rfl⟩, rfl⟩

/- What the call that unconfirms names. -/
theorem setUnconfirmedNotify_cases
    {blockHeight now : Nat}
    {events : List (TxEvent Hash)}
    (hNotify :
      notify keys wallet (.setUnconfirmedAfter blockHeight now) =
        some (next, events)) :
    ∃ front back,
      wallet.transactions = front ++ back ∧
        (∀ hash ∈ back, ∃ tx,
          wallet.allTx.get hash = some tx ∧
            blockHeight < tx.blockHeight) ∧
        next.transactions = wallet.transactions ∧
        (∀ hash,
          next.allTx.get hash =
            if hash ∈ back then
              (wallet.allTx.get hash).map fun tx =>
                { tx with blockHeight := TX_UNCONFIRMED }
            else wallet.allTx.get hash) ∧
        events = updateEvents back TX_UNCONFIRMED 0 := by
  unfold notify setTxUnconfirmedAfter at hNotify
  simp only [suffixAbove_eq, Option.bind_eq_bind,
    Option.bind_eq_some_iff] at hNotify
  rcases hNotify with
    ⟨above, hAbove, last, ⟨same, hSame, hLast⟩, hEqual⟩
  rw [hAbove] at hSame
  cases hSame
  cases hEqual
  rcases suffixWhile_cases hAbove with
    ⟨rest, hReverse, hAll, -⟩
  have hGet := get_foldl_setUnconfirmed above wallet.allTx
  refine
    ⟨rest.reverse, above.reverse, ?_, ?_, ?_, ?_, rfl⟩
  · have hAgain := congrArg List.reverse hReverse
    simpa using hAgain
  · intro hash hHash
    rcases hAll hash (List.mem_reverse.mp hHash) with
      ⟨tx, hTx, hHigh⟩
    exact ⟨tx, hTx, of_decide_eq_true hHigh⟩
  · split_ifs at hLast
    · cases hLast
      rfl
    · rcases updateBalance_cases hLast with ⟨_, _, rfl⟩
      rfl
  · intro hash
    simp only [List.mem_reverse]
    rw [← hGet hash]
    split_ifs at hLast
    · cases hLast
      rfl
    · rcases updateBalance_cases hLast with ⟨_, _, rfl⟩
      rfl

end BRWallet

end PlusWallet
