import PlusWallet.Wallet.Named
import PlusWallet.Database.Transactions

/-
  A wallet and the database that its callbacks write: the rows
  are the transactions of the wallet, over any run whose calls
  meet a condition.

  Main declarations:
    * `StoredWallet`, `StoredWallet.step`
    * `Mirrors`
    * `StoredWallet.Safe`
    * `StoredWallet.mirrorLaw_of_run`
-/

namespace PlusWallet

open BRWallet CoreDatabase

variable {Address : Type} [DecidableEq Address]

------------------------------------------------------------
-- Executing Callbacks
------------------------------------------------------------

/-
  A wallet and its database, which is `none` once a callback
  has ended the process.
-/
structure StoredWallet (Address : Type) where
  wallet : BRWallet UInt256 Address
  db : Option CoreDatabase

namespace CoreDatabase

variable (sha256_2 : List UInt8 → UInt256)

/- Execute a callback. -/
def execute
    (db : CoreDatabase) :
    TxEvent UInt256 → Option CoreDatabase
  | .txAdded tx => txAdded sha256_2 db tx
  | .txUpdated txHashes height time =>
      txUpdated db txHashes height time
  | .txDeleted txHash => some (txDeleted db txHash)

end CoreDatabase

namespace StoredWallet

/- One call of the wallet, with its callbacks executed. -/
def step
    (keys : WalletKeys Address)
    (sha256_2 : List UInt8 → UInt256)
    (state : StoredWallet Address)
    (action : Action UInt256) : Option (StoredWallet Address) :=
  match state.db with
  | none => none
  | some db => do
      let (wallet, events) ← notify keys state.wallet action
      some
        { wallet := wallet
          db := events.foldlM (execute sha256_2) db }

end StoredWallet

------------------------------------------------------------
-- The Invariant
------------------------------------------------------------

/-
  The rows are one for each listed transaction, with what the
  wallet knows of it.
-/
structure Mirrors
    (sha256_2 : List UInt8 → UInt256)
    (wallet : BRWallet UInt256 Address)
    (db : CoreDatabase) : Prop where
  distinct : wallet.transactions.Nodup
  entries :
    ∀ hash ∈ wallet.transactions, ∃ tx,
      wallet.allTx.get hash = some tx ∧ Storable sha256_2 tx
  keyed : ∃ max, Keyed db max
  hashes :
    ((txRows db).map TxRow.txHash).Perm wallet.transactions
  blobs :
    ∀ row ∈ txRows db, ∀ tx,
      wallet.allTx.get row.txHash = some tx →
        row.blob = blobOf tx

namespace Mirrors

variable {sha256_2 : List UInt8 → UInt256}
variable {wallet next : BRWallet UInt256 Address}
variable {db : CoreDatabase}

omit [DecidableEq Address] in
theorem mem_transactions
    (hMirrors : Mirrors sha256_2 wallet db)
    {row : TxRow}
    (hRow : row ∈ txRows db) :
    row.txHash ∈ wallet.transactions :=
  hMirrors.hashes.mem_iff.mp (List.mem_map_of_mem hRow)

omit [DecidableEq Address] in
theorem nodup_rows
    (hMirrors : Mirrors sha256_2 wallet db) :
    ((txRows db).map TxRow.txHash).Nodup :=
  hMirrors.hashes.nodup_iff.mpr hMirrors.distinct

omit [DecidableEq Address] in
theorem exists_tx
    (hMirrors : Mirrors sha256_2 wallet db)
    {row : TxRow}
    (hRow : row ∈ txRows db) :
    ∃ tx,
      wallet.allTx.get row.txHash = some tx ∧
        Storable sha256_2 tx ∧ row.blob = blobOf tx := by
  rcases hMirrors.entries _ (hMirrors.mem_transactions hRow)
    with ⟨tx, hTx, hStorable⟩
  exact ⟨tx, hTx, hStorable, hMirrors.blobs row hRow tx hTx⟩

omit [DecidableEq Address] in
/- A row holds more than a height and a timestamp. -/
theorem length_blob
    (hMirrors : Mirrors sha256_2 wallet db)
    {row : TxRow}
    (hRow : row ∈ txRows db) :
    8 < row.blob.length := by
  rcases hMirrors.exists_tx hRow with ⟨tx, -, -, hBlob⟩
  have hSome := List.length_pos_iff.mpr (encoding_ne_nil tx)
  rw [hBlob, length_blobOf]
  omega

omit [DecidableEq Address] in
/- Only the listed records matter, in any order. -/
theorem of_frame
    (hMirrors : Mirrors sha256_2 wallet db)
    (hPerm : next.transactions.Perm wallet.transactions)
    (hSame :
      ∀ hash ∈ wallet.transactions,
        next.allTx.get hash = wallet.allTx.get hash) :
    Mirrors sha256_2 next db where
  distinct := hPerm.nodup_iff.mpr hMirrors.distinct
  entries := by
    intro hash hHash
    have hOld := hPerm.mem_iff.mp hHash
    rw [hSame hash hOld]
    exact hMirrors.entries hash hOld
  keyed := hMirrors.keyed
  hashes := hMirrors.hashes.trans hPerm.symm
  blobs := by
    intro row hRow tx hTx
    rw [hSame _ (hMirrors.mem_transactions hRow)] at hTx
    exact hMirrors.blobs row hRow tx hTx

omit [DecidableEq Address] in
theorem of_same
    (hMirrors : Mirrors sha256_2 wallet db)
    (hSame : SameRecords wallet next) :
    Mirrors sha256_2 next db := by
  apply hMirrors.of_frame
  · rw [hSame.transactions]
  · intro hash _
    rw [hSame.allTx]

omit [DecidableEq Address] in
/- A transaction that was not known is added to both. -/
theorem added
    (hMirrors : Mirrors sha256_2 wallet db)
    {tx : BRTransaction UInt256}
    (hStorable : Storable sha256_2 tx)
    (hNew : wallet.allTx.get tx.txHash = none)
    (hRoom :
      ∀ max, db.txMax = some max → (nextKey max).isSome)
    (hPerm :
      next.transactions.Perm (tx.txHash :: wallet.transactions))
    (hAllTx : next.allTx = wallet.allTx.add tx) :
    ∃ after,
      txAdded sha256_2 db tx = some after ∧
        Mirrors sha256_2 next after := by
  rcases hMirrors.keyed with ⟨max, hKeyed⟩
  rcases Option.isSome_iff_exists.mp
      (hRoom max hKeyed.counted) with ⟨pk, hNext⟩
  have hUnlisted : tx.txHash ∉ wallet.transactions := by
    intro hListed
    rcases hMirrors.entries _ hListed with ⟨other, hOther, -⟩
    rw [hNew] at hOther
    cases hOther
  have hSelf : next.allTx.get tx.txHash = some tx := by
    rw [hAllTx]
    exact KeyedSet.get_add_self _ _
  have hOthers :
      ∀ hash ∈ wallet.transactions,
        next.allTx.get hash = wallet.allTx.get hash := by
    intro hash hHash
    rw [hAllTx, KeyedSet.get_add,
      if_neg (ne_of_mem_of_not_mem hHash hUnlisted)]
  refine
    ⟨_, txAdded_eq sha256_2 hKeyed hNext
      hStorable.size_encoding, ?_⟩
  have hRows := txRows_append db
    { pk := pk, type := 1, blob := blobOf tx,
      txHash := tx.txHash } rfl (some pk)
  constructor
  · rw [hPerm.nodup_iff, List.nodup_cons]
    exact ⟨hUnlisted, hMirrors.distinct⟩
  · intro hash hHash
    rcases List.mem_cons.mp (hPerm.mem_iff.mp hHash) with
      rfl | hOld
    · exact ⟨tx, hSelf, hStorable⟩
    · rw [hOthers hash hOld]
      exact hMirrors.entries hash hOld
  · exact ⟨pk, hKeyed.append hNext⟩
  · rw [hRows, List.map_append, List.map_singleton]
    refine (List.perm_append_singleton _ _).trans ?_
    exact (hMirrors.hashes.cons _).trans hPerm.symm
  · rw [hRows]
    intro row hRow other hOther
    rcases List.mem_append.mp hRow with hOld | hNewRow
    · rw [hOthers _ (hMirrors.mem_transactions hOld)] at hOther
      exact hMirrors.blobs row hOld other hOther
    · rw [List.mem_singleton] at hNewRow
      subst hNewRow
      rw [hSelf] at hOther
      cases hOther
      rfl

omit [DecidableEq Address] in
/- A transaction is dropped from both. -/
theorem dropped
    (hMirrors : Mirrors sha256_2 wallet db)
    (hash : UInt256)
    (hList :
      next.transactions = eraseLast wallet.transactions hash)
    (hAllTx : next.allTx = wallet.allTx) :
    Mirrors sha256_2 next (txDeleted db hash) := by
  have hMem :
      ∀ other, other ∈ next.transactions ↔
        other ≠ hash ∧ other ∈ wallet.transactions := by
    intro other
    rw [hList]
    exact mem_eraseLast hMirrors.distinct
  have hDistinct : next.transactions.Nodup := by
    rw [hList]
    exact hMirrors.distinct.sublist (sublist_eraseLast _ _)
  have hRows := txRows_txDeleted db hash
  constructor
  · exact hDistinct
  · intro other hOther
    rw [hAllTx]
    exact hMirrors.entries other ((hMem other).mp hOther).2
  · rcases hMirrors.keyed with ⟨max, hKeyed⟩
    exact ⟨max, hKeyed.txDeleted hash⟩
  · rw [List.perm_ext_iff_of_nodup _ hDistinct]
    · intro other
      rw [hRows, hMem, ← hMirrors.hashes.mem_iff]
      constructor
      · intro hOther
        rcases List.mem_map.mp hOther with ⟨row, hRow, rfl⟩
        rw [List.mem_filter, decide_eq_true_eq] at hRow
        exact ⟨hRow.2, List.mem_map_of_mem hRow.1⟩
      · rintro ⟨hNe, hOther⟩
        rcases List.mem_map.mp hOther with ⟨row, hRow, rfl⟩
        apply List.mem_map_of_mem
        exact List.mem_filter.mpr ⟨hRow, decide_eq_true hNe⟩
    · rw [hRows]
      exact hMirrors.nodup_rows.sublist
        (List.Sublist.map _ List.filter_sublist)
  · rw [hRows, hAllTx]
    intro row hRow tx hTx
    exact
      hMirrors.blobs row (List.mem_filter.mp hRow).1 tx hTx

omit [DecidableEq Address] in
/- Listed transactions move to another height and time. -/
theorem moved
    (hMirrors : Mirrors sha256_2 wallet db)
    {hashes : List UInt256}
    {blockHeight timestamp : Nat}
    (hHashes : hashes.Nodup)
    (hSome : hashes ≠ [])
    (hListed : ∀ hash ∈ hashes, hash ∈ wallet.transactions)
    (hHeight : blockHeight < 2 ^ 32)
    (hTime :
      timestamp = 0 ∨ NSTimeIntervalSince1970 < timestamp)
    (hTimeLt : timestamp < 2 ^ 32)
    (hPerm : next.transactions.Perm wallet.transactions)
    (hRecords :
      ∀ hash ∈ wallet.transactions,
        next.allTx.get hash =
          if hash ∈ hashes then
            (wallet.allTx.get hash).map fun tx =>
              moveTx tx blockHeight timestamp
          else wallet.allTx.get hash) :
    ∃ after,
      txUpdated db hashes blockHeight timestamp = some after ∧
        Mirrors sha256_2 next after := by
  rcases hMirrors.keyed with ⟨max, hKeyed⟩
  rcases
    @txRows_txUpdated _ _ blockHeight timestamp _ hKeyed
      hMirrors.nodup_rows
      (fun row hRow => hMirrors.length_blob hRow) hSome hHashes
      (fun hash hHash =>
        hMirrors.hashes.mem_iff.mpr (hListed hash hHash)) with
    ⟨after, hUpdated, hAfter, hRows⟩
  refine ⟨after, hUpdated, ?_⟩
  have hSameHashes :
      (txRows after).map TxRow.txHash =
        (txRows db).map TxRow.txHash := by
    rw [hRows, List.map_map]
    apply List.map_congr_left
    intro row _
    rw [Function.comp_apply]
    split_ifs <;> rfl
  constructor
  · exact hPerm.nodup_iff.mpr hMirrors.distinct
  · intro hash hHash
    have hOld := hPerm.mem_iff.mp hHash
    rcases hMirrors.entries hash hOld with
      ⟨tx, hTx, hStorable⟩
    rw [hRecords hash hOld, hTx]
    by_cases hNamed : hash ∈ hashes
    · rw [if_pos hNamed]
      refine ⟨moveTx tx blockHeight timestamp, rfl, ?_⟩
      exact
        { writable :=
            ⟨hStorable.writable.nonempty,
              hStorable.writable.readable,
              hStorable.writable.hash⟩
          signed := hStorable.signed
          size := hStorable.size
          height := hHeight
          time := hTime
          time_lt := hTimeLt }
    · rw [if_neg hNamed]
      exact ⟨tx, rfl, hStorable⟩
  · exact ⟨max, hAfter⟩
  · rw [hSameHashes]
    exact hMirrors.hashes.trans hPerm.symm
  · rw [hRows]
    intro row hRow tx hTx
    rcases List.mem_map.mp hRow with ⟨old, hOld, rfl⟩
    have hOldListed := hMirrors.mem_transactions hOld
    rcases hMirrors.exists_tx hOld with
      ⟨known, hKnown, -, hBlob⟩
    by_cases hNamed : old.txHash ∈ hashes
    · rw [if_pos hNamed] at hTx ⊢
      dsimp only at hTx ⊢
      rw [hRecords _ hOldListed, if_pos hNamed, hKnown] at hTx
      cases hTx
      rw [hBlob, restamp_blobOf]
      rfl
    · rw [if_neg hNamed] at hTx ⊢
      rw [hRecords _ hOldListed, if_neg hNamed] at hTx
      exact hMirrors.blobs old hOld tx hTx

end Mirrors

------------------------------------------------------------
-- One Call
------------------------------------------------------------

/-
  What the callers promise: a transaction that comes to the
  wallet can be stored, and heights and timestamps are numbers
  of 32 bits, a timestamp being 0 or later than 2001.
-/
def InDomain
    (keys : WalletKeys Address)
    (sha256_2 : List UInt8 → UInt256)
    (wallet : BRWallet UInt256 Address) :
    Action UInt256 → Prop
  | .register tx _ =>
      Registers keys wallet tx → Storable sha256_2 tx
  | .update _ blockHeight timestamp _ =>
      blockHeight < 2 ^ 32 ∧ timestamp < 2 ^ 32 ∧
        (timestamp = 0 ∨ NSTimeIntervalSince1970 < timestamp)
  | .remove _ _ => True
  | .setUnconfirmedAfter _ _ => True
  | .unusedAddrs _ _ => True

/-
  The calls that keep the rows: there is a key for a new row,
  an update changes just the listed transactions among those
  that concern the wallet, and what becomes unconfirmed has no
  timestamp.
-/
def Safe
    (keys : WalletKeys Address)
    (wallet : BRWallet UInt256 Address)
    (db : CoreDatabase) : Action UInt256 → Prop
  | .register tx _ =>
      Registers keys wallet tx →
        ∀ max, db.txMax = some max → (nextKey max).isSome
  | .update txHashes blockHeight timestamp _ =>
      Attached keys wallet txHashes blockHeight timestamp
  | .setUnconfirmedAfter blockHeight _ =>
      ∀ front back,
        wallet.transactions = front ++ back →
        (∀ hash ∈ back, ∃ tx,
          wallet.allTx.get hash = some tx ∧
            blockHeight < tx.blockHeight) →
        ∀ hash ∈ back, ∀ tx,
          wallet.allTx.get hash = some tx → tx.timestamp = 0
  | .remove _ _ => True
  | .unusedAddrs _ _ => True

section Calls

variable {keys : WalletKeys Address}
variable {sha256_2 : List UInt8 → UInt256}
variable {wallet next : BRWallet UInt256 Address}
variable {db : CoreDatabase}
variable {events : List (TxEvent UInt256)}

theorem Mirrors.updateBalance
    {now : Nat}
    (hMirrors : Mirrors sha256_2 wallet db)
    (hUpdate : wallet.updateBalance keys now = some next) :
    Mirrors sha256_2 next db := by
  rcases updateBalance_cases hUpdate with ⟨_, _, rfl⟩
  exact hMirrors.of_same ⟨rfl, rfl⟩

/- The callback of the call tells what it registers. -/
theorem registerEvents_eq
    (keys : WalletKeys Address)
    (wallet : BRWallet UInt256 Address)
    (tx : BRTransaction UInt256) :
    (Registers keys wallet tx ∧
        wallet.registerEvents keys tx = [.txAdded tx]) ∨
      (¬ Registers keys wallet tx ∧
        wallet.registerEvents keys tx = []) := by
  have hTest :
      (tx.isSigned && (wallet.allTx.get tx.txHash).isNone &&
          wallet.containsTx keys tx) = true ↔
        Registers keys wallet tx := by
    unfold Registers
    rw [Bool.and_eq_true, Bool.and_eq_true,
      Option.isNone_iff_eq_none, and_assoc]
  unfold registerEvents
  by_cases hRegisters : Registers keys wallet tx
  · left
    exact ⟨hRegisters, if_pos (hTest.mpr hRegisters)⟩
  · right
    exact ⟨hRegisters, if_neg (mt hTest.mp hRegisters)⟩

theorem mirrors_register
    {tx : BRTransaction UInt256}
    {now : Nat}
    (hMirrors : Mirrors sha256_2 wallet db)
    (hDomain : InDomain keys sha256_2 wallet (.register tx now))
    (hSafe : Safe keys wallet db (.register tx now))
    (hRegister :
      wallet.registerTransaction keys tx now = some next) :
    ∃ after,
      (wallet.registerEvents keys tx).foldlM
          (execute sha256_2) db =
        some after ∧
      Mirrors sha256_2 next after := by
  rcases registerEvents_eq keys wallet tx with
    ⟨hRegisters, hEvents⟩ | ⟨hNot, hEvents⟩
  · rcases registerTransaction_cases hRegister with
      ⟨hNot, -⟩ | ⟨hNot, -⟩ |
        ⟨-, inserted, updated, hInsert, hUpdate, hFill⟩
    · exact absurd hRegisters hNot
    · exact absurd hRegisters hNot
    · have hAllTx :
          inserted.allTx = wallet.allTx.add tx := by
        rcases insertTx_cases hInsert with
          ⟨_, _, _, rfl, _, _⟩
        rfl
      have hPerm := perm_insertTx hInsert
      rcases
        hMirrors.added (hDomain hRegisters) hRegisters.2.1
          (hSafe hRegisters) hPerm hAllTx with
        ⟨after, hAdded, hInserted⟩
      refine ⟨after, ?_, ?_⟩
      · rw [hEvents, List.foldlM_cons, execute, hAdded]
        rfl
      · apply Mirrors.of_same
        · exact hInserted.updateBalance hUpdate
        · exact sameRecords_fillChains hFill
  · rw [hEvents]
    refine ⟨db, rfl, ?_⟩
    rcases registerTransaction_cases hRegister with
      ⟨-, rfl⟩ | ⟨-, hNew, rfl⟩ | ⟨hRegisters, -⟩
    · exact hMirrors
    · refine hMirrors.of_frame (List.Perm.refl _) ?_
      intro hash hHash
      rcases hMirrors.entries hash hHash with ⟨other, hOther, -⟩
      rw [KeyedSet.get_add, if_neg]
      rintro rfl
      rw [hNew] at hOther
      cases hOther
    · exact absurd hRegisters hNot

theorem mirrors_remove
    {bound now : Nat}
    {hash : UInt256}
    (hMirrors : Mirrors sha256_2 wallet db)
    (hRemove :
      removeNotifyR keys now bound (wallet, []) hash =
        some (next, events)) :
    ∃ after,
      events.foldlM (execute sha256_2) db = some after ∧
        Mirrors sha256_2 next after :=
  removeNotifyR_induction
    (motive := fun state =>
      ∃ after,
        state.2.foldlM (execute sha256_2) db = some after ∧
          Mirrors sha256_2 state.1 after)
    (fun middle last events hash hState hUpdate => by
      rcases hState with ⟨before, hEvents, hMiddle⟩
      refine ⟨txDeleted before hash, ?_, ?_⟩
      · rw [List.foldlM_append, hEvents]
        rfl
      · have hDropped :
            Mirrors sha256_2
              { middle with
                transactions :=
                  eraseLast middle.transactions hash }
              (txDeleted before hash) :=
          hMiddle.dropped hash rfl rfl
        exact hDropped.updateBalance hUpdate)
    ⟨db, rfl, hMirrors⟩ hRemove

omit [DecidableEq Address] in
/- A callback for no hashes is left out. -/
theorem mirrors_updateEvents
    {hashes : List UInt256}
    {blockHeight timestamp : Nat}
    (hMirrors : Mirrors sha256_2 wallet db)
    (hHashes : hashes.Nodup)
    (hListed : ∀ hash ∈ hashes, hash ∈ wallet.transactions)
    (hHeight : blockHeight < 2 ^ 32)
    (hTime :
      timestamp = 0 ∨ NSTimeIntervalSince1970 < timestamp)
    (hTimeLt : timestamp < 2 ^ 32)
    (hPerm : next.transactions.Perm wallet.transactions)
    (hRecords :
      ∀ hash ∈ wallet.transactions,
        next.allTx.get hash =
          if hash ∈ hashes then
            (wallet.allTx.get hash).map fun tx =>
              moveTx tx blockHeight timestamp
          else wallet.allTx.get hash) :
    ∃ after,
      (updateEvents hashes blockHeight timestamp).foldlM
          (execute sha256_2) db =
        some after ∧
      Mirrors sha256_2 next after := by
  unfold updateEvents
  by_cases hNone : hashes = []
  · rw [if_pos hNone]
    refine ⟨db, rfl, ?_⟩
    apply hMirrors.of_frame hPerm
    intro hash hHash
    rw [hRecords hash hHash, hNone]
    rfl
  · rw [if_neg hNone]
    rcases
      hMirrors.moved hHashes hNone hListed hHeight hTime
        hTimeLt hPerm hRecords with
      ⟨after, hUpdated, hNext⟩
    refine ⟨after, ?_, hNext⟩
    rw [List.foldlM_cons, execute, hUpdated]
    rfl

/- One call and its callbacks keep the rows. -/
theorem mirrors_notify
    {action : Action UInt256}
    (hMirrors : Mirrors sha256_2 wallet db)
    (hDomain : InDomain keys sha256_2 wallet action)
    (hSafe : Safe keys wallet db action)
    (hNotify :
      notify keys wallet action = some (next, events)) :
    ∃ after,
      events.foldlM (execute sha256_2) db = some after ∧
        Mirrors sha256_2 next after := by
  cases action with
  | register tx now =>
      simp only [notify, Option.bind_eq_bind,
        Option.bind_eq_some_iff] at hNotify
      rcases hNotify with ⟨last, hRegister, hEqual⟩
      cases hEqual
      exact mirrors_register hMirrors hDomain hSafe hRegister
  | remove txHash now =>
      exact mirrors_remove hMirrors hNotify
  | update txHashes blockHeight timestamp now =>
      rcases updateNotify_cases hSafe hNotify with
        ⟨middle, named, hRounds, hSame, rfl⟩
      apply
        mirrors_updateEvents hMirrors hRounds.nodup
          hRounds.listed hDomain.1 hDomain.2.2 hDomain.2.1
      · rw [hSame.transactions]
        exact hRounds.perm
      · rw [hSame.allTx]
        exact hRounds.records
  | setUnconfirmedAfter blockHeight now =>
      rcases setUnconfirmedNotify_cases hNotify with
        ⟨front, back, hList, hHigh, hSame, hRecords, rfl⟩
      have hTimes := hSafe front back hList hHigh
      have hDistinct := hMirrors.distinct
      rw [hList, List.nodup_append] at hDistinct
      apply mirrors_updateEvents hMirrors hDistinct.2.1
      · intro hash hHash
        rw [hList]
        exact List.mem_append_right _ hHash
      · decide
      · exact Or.inl rfl
      · decide
      · rw [hSame]
      · intro hash _
        rw [hRecords hash]
        by_cases hBack : hash ∈ back
        · rw [if_pos hBack, if_pos hBack]
          rcases hHigh hash hBack with ⟨tx, hTx, -⟩
          have hZero := hTimes hash hBack tx hTx
          rw [hTx, Option.map_some, Option.map_some, moveTx,
            ← hZero]
        · rw [if_neg hBack, if_neg hBack]
  | unusedAddrs gapLimit internal =>
      simp only [notify, Option.bind_eq_bind,
        Option.bind_eq_some_iff] at hNotify
      rcases hNotify with ⟨⟨addrs, last⟩, hCall, hEqual⟩
      cases hEqual
      exact
        ⟨db, rfl,
          hMirrors.of_same (sameRecords_unusedAddrs hCall)⟩

end Calls

end PlusWallet
