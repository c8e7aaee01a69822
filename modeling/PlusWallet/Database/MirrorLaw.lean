import PlusWallet.Database.Mirror

/-
  A wallet that is opened from its database, and the rows after
  any run whose calls meet the conditions of `Safe`.

  Main declarations:
    * `StoredWallet.Kept`
    * `StoredWallet.MirrorLaw`
    * `StoredWallet.mirrorLaw_of_run`
-/

namespace PlusWallet

open BRWallet CoreDatabase

variable {Address : Type} [DecidableEq Address]

------------------------------------------------------------
-- Opening
------------------------------------------------------------

namespace BRWallet

/-
  Signed transactions with different hashes are all put in the
  list, and nothing else is known.
-/
theorem foldlM_addInitial
    {keys : WalletKeys Address}
    {txs : List (BRTransaction UInt256)}
    {wallet next : BRWallet UInt256 Address}
    (hNodup : (txs.map BRTransaction.txHash).Nodup)
    (hSigned : ∀ tx ∈ txs, tx.isSigned = true)
    (hFresh :
      ∀ tx ∈ txs, wallet.allTx.get tx.txHash = none)
    (hFold :
      txs.foldlM (addInitial keys) wallet = some next) :
    next.transactions.Perm
        (wallet.transactions ++
          txs.map BRTransaction.txHash) ∧
      (∀ tx ∈ txs,
        next.allTx.get tx.txHash = some tx) ∧
      ∀ hash, hash ∉ txs.map BRTransaction.txHash →
        next.allTx.get hash = wallet.allTx.get hash := by
  induction txs generalizing wallet with
  | nil =>
      cases hFold
      rw [List.map_nil, List.append_nil]
      exact
        ⟨List.Perm.refl _, nofun, fun _ _ => rfl⟩
  | cons tx txs ih =>
      rw [List.foldlM_cons, Option.bind_eq_bind,
        Option.bind_eq_some_iff] at hFold
      rcases hFold with ⟨middle, hAdd, hRest⟩
      rw [List.map_cons, List.nodup_cons] at hNodup
      rw [List.forall_mem_cons] at hSigned hFresh
      have hNew :
          middle.transactions.Perm
              (tx.txHash :: wallet.transactions) ∧
            middle.allTx = wallet.allTx.add tx := by
        unfold addInitial at hAdd
        rw [hSigned.1, hFresh.1] at hAdd
        simp only [Bool.not_true, Option.isSome_none,
          Bool.or_self, Bool.false_eq_true, if_false,
          Option.bind_eq_bind, Option.bind_eq_some_iff]
          at hAdd
        rcases hAdd with ⟨inserted, hInsert, hEqual⟩
        cases hEqual
        have hInserted := perm_insertTx hInsert
        refine ⟨hInserted, ?_⟩
        rcases insertTx_cases hInsert with
          ⟨_, _, _, rfl, _, _⟩
        rfl
      have hOther :
          ∀ hash, hash ≠ tx.txHash →
            middle.allTx.get hash = wallet.allTx.get hash := by
        intro hash hHash
        rw [hNew.2, KeyedSet.get_add, if_neg hHash]
      rcases
        ih hNodup.2 hSigned.2
          (fun other hMem => by
            rw [hOther]
            · exact hFresh.2 other hMem
            · intro hSame
              apply hNodup.1
              rw [← hSame]
              exact List.mem_map_of_mem hMem)
          hRest with
        ⟨hPerm, hKnown, hRestOther⟩
      refine ⟨?_, ?_, ?_⟩
      · rw [List.map_cons]
        refine hPerm.trans ?_
        refine (hNew.1.append_right _).trans ?_
        exact List.perm_middle.symm
      · rw [List.forall_mem_cons]
        refine ⟨?_, hKnown⟩
        rw [hRestOther _ hNodup.1, hNew.2]
        exact KeyedSet.get_add_self _ _
      · intro hash hHash
        rw [List.map_cons, List.mem_cons, not_or] at hHash
        rw [hRestOther hash hHash.2, hOther hash hHash.1]

end BRWallet

namespace StoredWallet

variable {keys : WalletKeys Address}
variable {sha256_2 : List UInt8 → UInt256}

/-
  A database as an app leaves it: a row for each of some
  transactions that can be stored.
-/
structure Kept
    (sha256_2 : List UInt8 → UInt256)
    (db : CoreDatabase) : Prop where
  keyed : ∃ max, Keyed db max
  distinct : ((txRows db).map TxRow.txHash).Nodup
  rows :
    ∀ row ∈ txRows db, ∃ tx,
      row.txHash = tx.txHash ∧ row.blob = blobOf tx ∧
        Storable sha256_2 tx

omit [DecidableEq Address] in
/- Rows that each hold a transaction hold a list of them. -/
theorem exists_txs
    {condition : BRTransaction UInt256 → Prop}
    {rows : List TxRow}
    (hAll :
      ∀ row ∈ rows, ∃ tx,
        row.txHash = tx.txHash ∧ row.blob = blobOf tx ∧
          condition tx) :
    ∃ txs : List (BRTransaction UInt256),
      rows.map TxRow.txHash = txs.map BRTransaction.txHash ∧
        rows.map TxRow.blob = txs.map blobOf ∧
        (∀ tx ∈ txs, condition tx) ∧
        ∀ row ∈ rows, ∃ tx ∈ txs,
          row.txHash = tx.txHash ∧ row.blob = blobOf tx := by
  induction rows with
  | nil => exact ⟨[], rfl, rfl, nofun, nofun⟩
  | cons row rows ih =>
      rw [List.forall_mem_cons] at hAll
      rcases hAll with ⟨⟨tx, hHash, hBlob, hTx⟩, hRest⟩
      rcases ih hRest with
        ⟨txs, hHashes, hBlobs, hTxs, hEach⟩
      refine ⟨tx :: txs, ?_, ?_, ?_, ?_⟩
      · rw [List.map_cons, List.map_cons, hHash, hHashes]
      · rw [List.map_cons, List.map_cons, hBlob, hBlobs]
      · rw [List.forall_mem_cons]
        exact ⟨hTx, hTxs⟩
      · rw [List.forall_mem_cons]
        refine ⟨⟨tx, List.mem_cons_self, hHash, hBlob⟩, ?_⟩
        intro other hOther
        rcases hEach other hOther with ⟨found, hFound, hSame⟩
        exact ⟨found, List.mem_cons_of_mem _ hFound, hSame⟩

/- A wallet that is opened has the rows that it came from. -/
theorem mirrors_new
    {db : CoreDatabase}
    {loaded : List (BRTransaction UInt256)}
    {now : Nat}
    {wallet : BRWallet UInt256 Address}
    (hKept : Kept sha256_2 db)
    (hLoad : loadTransactions sha256_2 db = some loaded)
    (hNew : new keys loaded now = some wallet) :
    Mirrors sha256_2 wallet db := by
  rcases exists_txs hKept.rows with
    ⟨txs, hHashes, hBlobs, hTxs, hEach⟩
  rw [loadTransactions_eq hBlobs hTxs] at hLoad
  cases hLoad
  have hSame :
      (txs.map stored).map BRTransaction.txHash =
        (txRows db).map TxRow.txHash := by
    rw [hHashes, List.map_map]
    rfl
  rcases new_cases hNew with
    ⟨added, filled, hAdded, hFilled, hUpdated⟩
  have hSigned :
      ∀ tx ∈ txs.map stored, tx.isSigned = true := by
    intro tx hTx
    rcases List.mem_map.mp hTx with ⟨old, hOld, rfl⟩
    exact (hTxs old hOld).stored.signed
  have hDistinct :
      ((txs.map stored).map BRTransaction.txHash).Nodup := by
    rw [hSame]
    exact hKept.distinct
  rcases
    foldlM_addInitial hDistinct hSigned
      (fun tx _ => KeyedSet.get_empty _) hAdded with
    ⟨hPerm, hKnown, -⟩
  rw [hSame] at hPerm
  have hRow :
      ∀ row ∈ txRows db, ∃ tx,
        added.allTx.get row.txHash = some tx ∧
          Storable sha256_2 tx ∧ row.blob = blobOf tx := by
    intro row hRow
    rcases hEach row hRow with ⟨tx, hTx, hHash, hBlob⟩
    have hStorable := hTxs tx hTx
    refine ⟨stored tx, ?_, hStorable.stored, ?_⟩
    · rw [hHash]
      exact hKnown _ (List.mem_map_of_mem hTx)
    · rw [hBlob, blobOf_stored hStorable.signed]
  have hOpened : Mirrors sha256_2 added db :=
    { distinct := hPerm.nodup_iff.mpr hKept.distinct
      entries := by
        intro hash hHash
        rcases List.mem_map.mp (hPerm.mem_iff.mp hHash) with
          ⟨row, hMem, rfl⟩
        rcases hRow row hMem with ⟨tx, hTx, hStorable, -⟩
        exact ⟨tx, hTx, hStorable⟩
      keyed := hKept.keyed
      hashes := hPerm.symm
      blobs := by
        intro row hMem tx hTx
        rcases hRow row hMem with ⟨known, hKnown, -, hBlob⟩
        rw [hTx] at hKnown
        cases hKnown
        exact hBlob }
  exact
    (hOpened.of_same (sameRecords_fillChains hFilled)
      ).updateBalance hUpdated

------------------------------------------------------------
-- Runs
------------------------------------------------------------

/-
  The database is open, and its rows are one for each listed
  transaction, with its bytes, height and timestamp.  Loading
  them gives these transactions back.
-/
def MirrorLaw
    (sha256_2 : List UInt8 → UInt256)
    (state : StoredWallet Address) : Prop :=
  ∃ db,
    state.db = some db ∧
      state.wallet.transactions.Nodup ∧
      ((txRows db).map TxRow.txHash).Perm
        state.wallet.transactions ∧
      (∀ row ∈ txRows db, ∃ tx,
        state.wallet.allTx.get row.txHash = some tx ∧
          row.blob =
            (tx.serialize sha256_2).bytes ++
              trailer tx.blockHeight (rebase tx.timestamp)) ∧
      ∃ loaded,
        loadTransactions sha256_2 db = some loaded ∧
          (loaded.map BRTransaction.txHash).Perm
            state.wallet.transactions ∧
          ∀ tx ∈ loaded, ∃ known,
            state.wallet.allTx.get tx.txHash = some known ∧
              (tx.serialize sha256_2).bytes =
                (known.serialize sha256_2).bytes ∧
              tx.blockHeight = known.blockHeight ∧
              tx.timestamp = known.timestamp

omit [DecidableEq Address] in
theorem mirrorLaw_of_mirrors
    {state : StoredWallet Address}
    {db : CoreDatabase}
    (hDb : state.db = some db)
    (hMirrors : Mirrors sha256_2 state.wallet db) :
    MirrorLaw sha256_2 state := by
  have hBytes :
      ∀ tx : BRTransaction UInt256,
        (tx.serialize sha256_2).bytes =
          BRTransaction.encoding tx := by
    intro tx
    exact (BRTransaction.writes_serialize sha256_2 tx).bytes_eq
  have hRows :
      ∀ row ∈ txRows db, ∃ tx,
        row.txHash = tx.txHash ∧ row.blob = blobOf tx ∧
          state.wallet.allTx.get tx.txHash = some tx ∧
          Storable sha256_2 tx := by
    intro row hRow
    rcases hMirrors.exists_tx hRow with
      ⟨tx, hTx, hStorable, hBlob⟩
    have hKey : tx.txHash = row.txHash :=
      KeyedSet.key_of_get hTx
    rw [← hKey] at hTx
    exact ⟨tx, hKey.symm, hBlob, hTx, hStorable⟩
  rcases exists_txs hRows with ⟨txs, hHashes, hBlobs, hTxs, -⟩
  have hLoad :=
    loadTransactions_eq hBlobs fun tx hTx => (hTxs tx hTx).2
  refine
    ⟨db, hDb, hMirrors.distinct, hMirrors.hashes, ?_,
      txs.map stored, hLoad, ?_, ?_⟩
  · intro row hRow
    rcases hMirrors.exists_tx hRow with ⟨tx, hTx, -, hBlob⟩
    refine ⟨tx, hTx, ?_⟩
    rw [hBytes]
    exact hBlob
  · have hSame :
        (txs.map stored).map BRTransaction.txHash =
          (txRows db).map TxRow.txHash := by
      rw [hHashes, List.map_map]
      rfl
    rw [hSame]
    exact hMirrors.hashes
  · intro tx hTx
    rcases List.mem_map.mp hTx with ⟨known, hKnown, rfl⟩
    refine ⟨known, (hTxs known hKnown).1, ?_, rfl, rfl⟩
    rw [hBytes, hBytes]
    exact encoding_stored (hTxs known hKnown).2.signed

/- One step of the wallet and its database. -/
theorem mirrors_step
    {state next : StoredWallet Address}
    {action : Action UInt256}
    (hState :
      ∃ db, state.db = some db ∧
        Mirrors sha256_2 state.wallet db)
    (hCondition :
      InDomain keys sha256_2 state.wallet action ∧
        ∀ db, state.db = some db →
          Safe keys state.wallet db action)
    (hStep : step keys sha256_2 state action = some next) :
    ∃ db, next.db = some db ∧
      Mirrors sha256_2 next.wallet db := by
  rcases hState with ⟨db, hDb, hMirrors⟩
  unfold step at hStep
  rw [hDb] at hStep
  simp only [Option.bind_eq_bind, Option.bind_eq_some_iff]
    at hStep
  rcases hStep with ⟨⟨wallet, events⟩, hNotify, hEqual⟩
  cases hEqual
  exact
    mirrors_notify hMirrors hCondition.1 (hCondition.2 db hDb)
      hNotify

/-
  A wallet that is opened from its rows and whose calls are all
  safe is mirrored by the rows at every state that it reaches.
-/
theorem mirrorLaw_of_run
    {db : CoreDatabase}
    {loaded : List (BRTransaction UInt256)}
    {now : Nat}
    {wallet : BRWallet UInt256 Address}
    {actions : List (Action UInt256)}
    {final : StoredWallet Address}
    (hKept : Kept sha256_2 db)
    (hLoad : loadTransactions sha256_2 db = some loaded)
    (hNew : new keys loaded now = some wallet)
    (hMeets :
      Run.Meets (step keys sha256_2)
        (fun state action =>
          InDomain keys sha256_2 state.wallet action ∧
            ∀ db, state.db = some db →
              Safe keys state.wallet db action)
        ⟨wallet, some db⟩ actions)
    (hRun :
      Run.run (step keys sha256_2) ⟨wallet, some db⟩ actions =
        some final) :
    MirrorLaw sha256_2 final := by
  have hFinal :
      ∃ db, final.db = some db ∧
        Mirrors sha256_2 final.wallet db :=
    Run.run_invariant
      (fun state : StoredWallet Address =>
        ∃ db, state.db = some db ∧
          Mirrors sha256_2 state.wallet db)
      (fun _ _ _ hState hCondition hStep =>
        mirrors_step hState hCondition hStep)
      ⟨db, rfl, mirrors_new hKept hLoad hNew⟩ hMeets hRun
  rcases hFinal with ⟨last, hLast, hMirrors⟩
  exact mirrorLaw_of_mirrors hLast hMirrors

------------------------------------------------------------
-- Sample Runs
------------------------------------------------------------

/- All bytes have one hash. -/
def onesHash : List UInt8 → UInt256 :=
  fun _ => List.Vector.replicate 32 1

/- A payment to the first external address. -/
def paymentTx : BRTransaction UInt256 where
  txHash := List.Vector.replicate 32 1
  version := 1
  inputs :=
    [{ txHash := List.Vector.replicate 32 2
       index := 0
       amount := 0
       script := []
       signature := some [0]
       sequence := TXIN_SEQUENCE }]
  outputs := [{ amount := 10000, script := [0, 0] }]
  lockTime := 0
  blockHeight := TX_UNCONFIRMED
  timestamp := 0

/- A database without rows. -/
def emptyDatabase : CoreDatabase where
  transactions := []
  txMax := some 0
  blocks := []
  blockMax := some 0

/- The wallet of such a database. -/
def emptyWallet : BRWallet UInt256 (Bool × Nat) :=
  (new indexKeys [] 0).get (by decide +kernel)

theorem new_emptyDatabase :
    new indexKeys ([] : List (BRTransaction UInt256)) 0 =
      some emptyWallet :=
  (Option.some_get _).symm

theorem storable_paymentTx :
    Storable onesHash paymentTx where
  writable :=
    { nonempty := by decide
      readable := by
        intro input hInput
        rw [List.mem_singleton.mp hInput]
        exact show isAddressScript [0] = false by
          decide +kernel
      hash := by decide +kernel }
  signed := by decide
  size := by decide +kernel
  height := by decide
  time := Or.inl rfl
  time_lt := by decide

theorem kept_emptyDatabase :
    Kept onesHash emptyDatabase where
  keyed := ⟨0, rfl, nofun⟩
  distinct := List.nodup_nil
  rows := nofun

/- A payment that is confirmed. -/
theorem mirrorLaw_of_run_payment :
    ∃ final,
      Run.run (step indexKeys onesHash)
          ⟨emptyWallet, some emptyDatabase⟩
          [.register paymentTx 0,
            .update [paymentTx.txHash] 5 1000000000 0] =
        some final ∧
      MirrorLaw onesHash final := by
  have hRun :
      (Run.run (step indexKeys onesHash)
        ⟨emptyWallet, some emptyDatabase⟩
        [.register paymentTx 0,
          .update [paymentTx.txHash] 5 1000000000 0]).isSome
      := by
    decide +kernel
  rcases Option.isSome_iff_exists.mp hRun with ⟨final, hFinal⟩
  refine ⟨final, hFinal, ?_⟩
  apply
    mirrorLaw_of_run kept_emptyDatabase rfl new_emptyDatabase
      _ hFinal
  refine ⟨⟨?_, ?_⟩, ?_⟩
  · intro _
    exact storable_paymentTx
  · rintro _ ⟨⟩ _ max ⟨⟩
    decide
  · intro next hNext
    have hListed :
        (step indexKeys onesHash
            ⟨emptyWallet, some emptyDatabase⟩
            (.register paymentTx 0)).all
          (fun next =>
            decide
                (paymentTx.txHash ∈ next.wallet.transactions) &&
              (next.wallet.allTx.get paymentTx.txHash).all
                (next.wallet.containsTx indexKeys)) =
          true := by
      decide +kernel
    rw [hNext, Option.all_some, Bool.and_eq_true,
      decide_eq_true_eq] at hListed
    refine ⟨⟨⟨by decide, by decide, ?_⟩, ?_⟩, ?_⟩
    · right
      decide
    · intro _ _ hash hHash tx hTx
      rw [List.mem_singleton.mp hHash] at hTx ⊢
      rw [hTx, Option.all_some] at hListed
      exact Or.inr (iff_of_true hListed.1 hListed.2)
    · exact fun _ _ => trivial

/-
  A removed transaction is still known.  When it is confirmed
  again the callback names it, and there is no row for it.
-/
theorem not_mirrorLaw_of_confirmed_again :
    ∃ final : StoredWallet (Bool × Nat),
      Run.run (step indexKeys onesHash)
          ⟨emptyWallet, some emptyDatabase⟩
          [.register paymentTx 0,
            .remove paymentTx.txHash 0,
            .update [paymentTx.txHash] 5 1000000000 0] =
        some final ∧
      final.db = none ∧ ¬ MirrorLaw onesHash final := by
  have hRun :
      (Run.run (step indexKeys onesHash)
          ⟨emptyWallet, some emptyDatabase⟩
          [.register paymentTx 0,
            .remove paymentTx.txHash 0,
            .update [paymentTx.txHash] 5 1000000000 0]).map
          StoredWallet.db =
        some none := by
    decide +kernel
  rw [Option.map_eq_some_iff] at hRun
  rcases hRun with ⟨final, hFinal, hDb⟩
  refine ⟨final, hFinal, hDb, ?_⟩
  rintro ⟨db, hOpen, -⟩
  rw [hDb] at hOpen
  cases hOpen

end StoredWallet

end PlusWallet
