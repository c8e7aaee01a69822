import PlusWallet.Wallet.Order

/-
  What `BRWalletRegisterTransaction` returns.  It says `true`
  of every transaction that the wallet knows already, whether
  it is in the list or was kept for other reasons.

  Main declarations:
    * `BRWallet.Ranked`, `BRWallet.insertTx_total`
    * `BRWallet.registerResult`
    * `BRWallet.RegisterLaw`, `BRWallet.registerLaw_iff`
-/

namespace PlusWallet

namespace BRWallet

variable {Hash Address : Type}
variable [DecidableEq Hash] [DecidableEq Address]
variable {keys : WalletKeys Address}
variable {wallet next : BRWallet Hash Address}

------------------------------------------------------------
-- Calls That Return
------------------------------------------------------------

/- What a transaction spends comes before it: no cycles. -/
def Ranked
    (rank : Hash → Nat)
    (allTx : TxSet Hash) : Prop :=
  ∀ hash tx, allTx.get hash = some tx →
    ∀ input ∈ tx.inputs, rank input.txHash < rank hash

omit [DecidableEq Address] in
theorem ranked_of_records
    {rank : Hash → Nat}
    {allTx : TxSet Hash}
    (hRecords :
      ∀ tx ∈ allTx.records, ∀ input ∈ tx.inputs,
        rank input.txHash < rank tx.txHash) :
    Ranked rank allTx := by
  intro hash tx hGet input hInput
  rw [← KeyedSet.key_of_get hGet]
  exact hRecords tx (KeyedSet.mem_of_get hGet) input hInput

/- The number of records of a lower rank. -/
def below
    (rank : Hash → Nat)
    (allTx : TxSet Hash)
    (hash : Hash) : Nat :=
  (allTx.records.filter fun tx =>
    decide (rank tx.txHash < rank hash)).length

omit [DecidableEq Hash] [DecidableEq Address] in
theorem below_lt
    {rank : Hash → Nat}
    {allTx : TxSet Hash}
    {parent : BRTransaction Hash}
    {hash : Hash}
    (hParent : parent ∈ allTx.records)
    (hRank : rank parent.txHash < rank hash) :
    below rank allTx parent.txHash < below rank allTx hash := by
  have hSame :
      (allTx.records.filter fun tx =>
          decide (rank tx.txHash < rank parent.txHash)) =
        (allTx.records.filter fun tx =>
            decide (rank tx.txHash < rank hash)).filter
          fun tx =>
            decide (rank tx.txHash < rank parent.txHash) := by
    rw [List.filter_filter]
    apply List.filter_congr
    intro tx _
    simp only [← Bool.decide_and, decide_eq_decide]
    omega
  unfold below
  rw [hSame, List.length_filter_lt_length_iff_exists]
  refine ⟨parent, ?_, by simp⟩
  simpa using ⟨hParent, hRank⟩

omit [DecidableEq Hash] [DecidableEq Address] in
theorem below_le
    (rank : Hash → Nat)
    (allTx : TxSet Hash)
    (hash : Hash) :
    below rank allTx hash ≤ allTx.records.length :=
  List.length_filter_le _ _

omit [DecidableEq Address] in
/- The search along the inputs ends where there is no cycle. -/
theorem txIsAscending_total
    {rank : Hash → Nat}
    {allTx : TxSet Hash}
    (hRanked : Ranked rank allTx)
    {bound : Nat}
    {tx1 : BRTransaction Hash}
    (tx2 : BRTransaction Hash)
    (hKnown : allTx.get tx1.txHash = some tx1)
    (hBound : below rank allTx tx1.txHash < bound) :
    ∃ ascending,
      txIsAscending allTx bound tx1 tx2 = some ascending := by
  induction bound generalizing tx1 with
  | zero => omega
  | succ bound ih =>
      unfold txIsAscending
      split_ifs
      · exact ⟨_, rfl⟩
      · exact ⟨_, rfl⟩
      · exact ⟨_, rfl⟩
      · exact ⟨_, rfl⟩
      · apply Run.run_total
        intro found input hInput
        split_ifs
        · exact ⟨_, rfl⟩
        · cases hParent : allTx.get input.txHash with
          | none => exact ⟨_, rfl⟩
          | some parent =>
              have hHash := KeyedSet.key_of_get hParent
              have hLess :=
                hRanked tx1.txHash tx1 hKnown input hInput
              rw [← hHash] at hParent hLess
              have hBelow :=
                below_lt (KeyedSet.mem_of_get hParent) hLess
              exact ih hParent (by omega)

variable (keys) in
/- Two known transactions can be compared. -/
theorem txCompare_total
    {rank : Hash → Nat}
    (hRanked : Ranked rank wallet.allTx)
    {tx1 tx2 : BRTransaction Hash}
    (hFirst : wallet.allTx.get tx1.txHash = some tx1)
    (hSecond : wallet.allTx.get tx2.txHash = some tx2) :
    ∃ order, wallet.txCompare keys tx1 tx2 = some order := by
  rcases
      txIsAscending_total hRanked tx2 hFirst
        (Nat.lt_succ_of_le (below_le rank _ _)) with
    ⟨first, hOne⟩
  rcases
      txIsAscending_total hRanked tx1 hSecond
        (Nat.lt_succ_of_le (below_le rank _ _)) with
    ⟨second, hTwo⟩
  unfold txCompare
  simp only [hOne, hTwo, Option.bind_eq_bind,
    Option.bind_some]
  split_ifs
  · exact ⟨_, rfl⟩
  · exact ⟨_, rfl⟩
  · split <;> exact ⟨_, rfl⟩
  · split <;> exact ⟨_, rfl⟩
  · split <;> exact ⟨_, rfl⟩
  · split <;> exact ⟨_, rfl⟩

/- Every entry of the list is a transaction that is known. -/
def EntriesKnown (wallet : BRWallet Hash Address) : Prop :=
  ∀ hash ∈ wallet.transactions, ∃ tx,
    wallet.allTx.get hash = some tx

variable (keys) in
theorem insertBehind_total
    {rank : Hash → Nat}
    (hRanked : Ranked rank wallet.allTx)
    {tx : BRTransaction Hash}
    (hTx : wallet.allTx.get tx.txHash = some tx)
    {hashes : List Hash}
    (hKnown :
      ∀ hash ∈ hashes, ∃ other,
        wallet.allTx.get hash = some other) :
    ∃ inserted,
      insertBehind keys wallet tx hashes = some inserted := by
  induction hashes with
  | nil => exact ⟨_, rfl⟩
  | cons hash before ih =>
      rw [List.forall_mem_cons] at hKnown
      rcases hKnown.1 with ⟨other, hOther⟩
      rcases ih hKnown.2 with ⟨inserted, hInserted⟩
      have hSelf := hOther
      rw [← KeyedSet.key_of_get hOther] at hSelf
      rcases txCompare_total keys hRanked hSelf hTx with
        ⟨order, hOrder⟩
      unfold insertBehind
      simp only [hOther, hOrder, hInserted, Option.bind_eq_bind,
        Option.bind_some]
      split_ifs <;> exact ⟨_, rfl⟩

variable (keys) in
theorem insertTx_total
    {rank : Hash → Nat}
    (hRanked : Ranked rank wallet.allTx)
    {tx : BRTransaction Hash}
    (hTx : wallet.allTx.get tx.txHash = some tx)
    (hKnown : EntriesKnown wallet) :
    ∃ inserted, wallet.insertTx keys tx = some inserted := by
  rcases
      insertBehind_total keys hRanked hTx
        (fun hash (hHash : hash ∈ wallet.transactions.reverse) =>
          hKnown hash (List.mem_reverse.mp hHash)) with
    ⟨inserted, hInserted⟩
  unfold insertTx
  rw [hInserted]
  exact ⟨_, rfl⟩

theorem entriesKnown_insertTx
    {tx : BRTransaction Hash}
    (hInsert : wallet.insertTx keys tx = some next)
    (hKnown : EntriesKnown wallet)
    (hTx : wallet.allTx.get tx.txHash = some tx) :
    EntriesKnown next := by
  intro hash hHash
  have hMem := (perm_insertTx hInsert).mem_iff.mp hHash
  rcases insertTx_cases hInsert with ⟨_, _, -, rfl, -, -⟩
  rcases List.mem_cons.mp hMem with rfl | hBefore
  · exact ⟨tx, hTx⟩
  · exact hKnown hash hBefore

------------------------------------------------------------
-- Results
------------------------------------------------------------

/- What `BRWalletRegisterTransaction` returns. -/
def registerResult
    (keys : WalletKeys Address)
    (wallet : BRWallet Hash Address)
    (tx : BRTransaction Hash) : Bool :=
  if !tx.isSigned then false
  else if (wallet.allTx.get tx.txHash).isSome then true
  else wallet.containsTx keys tx

/-
  The call reads no freed record and returns; it says `true`
  exactly if the transaction is in the list afterwards, which
  keeps its entries and has one more at most.
-/
structure RegisterLaw
    (keys : WalletKeys Address)
    (wallet : BRWallet Hash Address)
    (tx : BRTransaction Hash)
    (now : Nat) : Prop where
  safe : Registers keys wallet tx → EntriesKnown wallet
  result :
    ∃ next,
      wallet.registerTransaction keys tx now = some next ∧
        (registerResult keys wallet tx = true ↔
          tx.txHash ∈ next.transactions) ∧
        wallet.transactions.Sublist next.transactions ∧
        next.transactions.length ≤
          wallet.transactions.length + 1

/-
  The wallet knows the transaction exactly if it lists it, and
  an insertion finds every listed transaction.
-/
structure KnownIfListed
    (keys : WalletKeys Address)
    (wallet : BRWallet Hash Address)
    (tx : BRTransaction Hash) : Prop where
  known :
    (wallet.allTx.get tx.txHash).isSome = true ↔
      tx.txHash ∈ wallet.transactions
  entries : Registers keys wallet tx → EntriesKnown wallet

variable (keys wallet) in
theorem registerResult_iff
    {tx : BRTransaction Hash}
    (hSigned : tx.isSigned = true) :
    registerResult keys wallet tx = true ↔
      (wallet.allTx.get tx.txHash).isSome = true ∨
        Registers keys wallet tx := by
  unfold registerResult Registers
  rw [if_neg (by simp [hSigned])]
  by_cases hSome :
      (wallet.allTx.get tx.txHash).isSome = true
  · simp [hSome]
  · rw [if_neg hSome]
    have hNone : wallet.allTx.get tx.txHash = none := by
      simpa using hSome
    simp [hSigned, hNone]

/- A transaction that is registered comes to the list. -/
theorem transactions_of_registers
    {tx : BRTransaction Hash}
    {now : Nat}
    (hRegisters : Registers keys wallet tx)
    (hRegister :
      wallet.registerTransaction keys tx now = some next) :
    ∃ front back,
      wallet.transactions = front ++ back ∧
        next.transactions = front ++ tx.txHash :: back := by
  rcases registerTransaction_cases hRegister with
    ⟨hNot, -⟩ | ⟨hNot, -⟩ |
      ⟨-, inserted, updated, hInsert, hUpdate, hFill⟩
  · exact absurd hRegisters hNot
  · exact absurd hRegisters hNot
  · rcases insertTx_cases hInsert with
      ⟨front, back, hList, rfl, -, -⟩
    rcases updateBalance_cases hUpdate with ⟨_, -, rfl⟩
    exact
      ⟨front, back, hList,
        (sameRecords_fillChains hFill).transactions⟩

/- Any other one leaves the list as it is. -/
theorem transactions_of_not_registers
    {tx : BRTransaction Hash}
    {now : Nat}
    (hNot : ¬ Registers keys wallet tx)
    (hRegister :
      wallet.registerTransaction keys tx now = some next) :
    next.transactions = wallet.transactions := by
  rcases registerTransaction_cases hRegister with
    ⟨-, rfl⟩ | ⟨-, -, rfl⟩ | ⟨hRegisters, -⟩
  · rfl
  · rfl
  · exact absurd hRegisters hNot

section Derivation

variable {derived : Bool → Nat → Address}

variable
    (hDerive :
      ∀ internal j,
        keys.derive internal j = some (derived internal j))
    (hInjective :
      ∀ internal, Function.Injective (derived internal))

include hDerive hInjective

omit [DecidableEq Hash] in
theorem fillChains_total
    (hChains : Chains derived wallet) :
    ∃ filled, wallet.fillChains keys = some filled := by
  rcases
      unusedAddrs_spec hDerive hInjective hChains
        SEQUENCE_GAP_LIMIT_EXTERNAL false with
    ⟨_, external, hExternal, hStill, -⟩
  rcases
      unusedAddrs_spec hDerive hInjective hStill
        SEQUENCE_GAP_LIMIT_INTERNAL true with
    ⟨_, internal, hInternal, -⟩
  refine ⟨internal, ?_⟩
  simp only [fillChains, hExternal, hInternal,
    Option.bind_eq_bind, Option.bind_some]

/- Where nothing has been freed a registration returns. -/
theorem registerTransaction_total
    {rank : Hash → Nat}
    {tx : BRTransaction Hash}
    (hChains : Chains derived wallet)
    (hRanked : Ranked rank (wallet.allTx.add tx))
    (hKnown : Registers keys wallet tx → EntriesKnown wallet)
    (hSigned : tx.isSigned = true)
    (now : Nat) :
    ∃ next,
      wallet.registerTransaction keys tx now = some next := by
  unfold registerTransaction
  rw [if_neg (by simp [hSigned])]
  split_ifs with hSome hContains hHeight
  · exact ⟨_, rfl⟩
  · have hNone : wallet.allTx.get tx.txHash = none := by
      simpa using hSome
    have hEntries := hKnown ⟨hSigned, hNone, hContains⟩
    have hAdded :
        EntriesKnown
          { wallet with allTx := wallet.allTx.add tx } := by
      intro hash hHash
      rcases hEntries hash hHash with ⟨other, hOther⟩
      dsimp only
      rw [KeyedSet.get_add]
      split_ifs
      · exact ⟨tx, rfl⟩
      · exact ⟨other, hOther⟩
    rcases
        insertTx_total keys hRanked
          (KeyedSet.get_add_self _ _) hAdded with
      ⟨inserted, hInserted⟩
    have hListed : EntriesKnown inserted :=
      entriesKnown_insertTx hInserted hAdded
        (KeyedSet.get_add_self _ _)
    have hUpdates :
        ∃ updated,
          inserted.updateBalance keys now = some updated :=
      updateBalance_of_entries hListed now
    rcases hUpdates with ⟨updated, hUpdated⟩
    have hSame := sameChains_insertTx hInserted
    have hStill : Chains derived inserted :=
      hChains.of_same
        ⟨hSame.internal, hSame.external, hSame.union⟩
    rcases
        fillChains_total hDerive hInjective
          (hStill.of_same (sameChains_updateBalance hUpdated))
      with ⟨filled, hFilled⟩
    refine ⟨filled, ?_⟩
    rw [Option.bind_eq_bind, hInserted, Option.bind_some,
      hUpdated]
    exact hFilled
  · exact ⟨_, rfl⟩
  · exact ⟨_, rfl⟩

/- In every wallet with derived chains, and any transaction. -/
theorem registerLaw_iff
    {rank : Hash → Nat}
    {tx : BRTransaction Hash}
    (hChains : Chains derived wallet)
    (hRanked : Ranked rank (wallet.allTx.add tx))
    (hSigned : tx.isSigned = true)
    (now : Nat) :
    RegisterLaw keys wallet tx now ↔
      KnownIfListed keys wallet tx := by
  have hResult := registerResult_iff keys wallet hSigned
  constructor
  · rintro ⟨hSafe, next, hNext, hTrue, hSublist, -⟩
    refine ⟨⟨?_, ?_⟩, hSafe⟩
    · intro hSome
      have hNot : ¬ Registers keys wallet tx := by
        intro hRegisters
        rw [hRegisters.2.1] at hSome
        cases hSome
      rw [← transactions_of_not_registers hNot hNext]
      exact hTrue.mp (hResult.mpr (Or.inl hSome))
    · intro hListed
      rcases hResult.mp (hTrue.mpr (hSublist.subset hListed))
        with hSome | hRegisters
      · exact hSome
      · rcases hSafe hRegisters _ hListed with ⟨other, hOther⟩
        rw [hOther]
        rfl
  · rintro ⟨hKnown, hEntries⟩
    rcases
        registerTransaction_total hDerive hInjective hChains
          hRanked hEntries hSigned now with
      ⟨next, hNext⟩
    refine ⟨hEntries, next, hNext, ?_⟩
    by_cases hRegisters : Registers keys wallet tx
    · rcases transactions_of_registers hRegisters hNext with
        ⟨front, back, hBefore, hAfter⟩
      rw [hBefore, hAfter]
      refine ⟨?_, ?_, ?_⟩
      · simp [hResult.mpr (Or.inr hRegisters)]
      · exact
          List.Sublist.append_left (List.sublist_cons_self _ _)
            _
      · rw [List.length_append, List.length_append,
          List.length_cons]
        omega
    · rw [transactions_of_not_registers hRegisters hNext,
        hResult, ← hKnown]
      exact
        ⟨or_iff_left hRegisters, List.Sublist.refl _,
          Nat.le_succ _⟩

/-
  In every wallet that is reached a registration does what it
  says exactly if the transaction is either listed or unknown,
  and no listed one that it has to read has been freed.
-/
theorem registerLaw_iff_of_run
    {transactions : List (BRTransaction Hash)}
    {now : Nat}
    {actions : List (Action Hash)}
    {final : BRWallet Hash Address}
    (hNew : new keys transactions now = some wallet)
    (hRun : Run.run (step keys) wallet actions = some final)
    {rank : Hash → Nat}
    {tx : BRTransaction Hash}
    (hRanked : Ranked rank (final.allTx.add tx))
    (hSigned : tx.isSigned = true)
    (later : Nat) :
    RegisterLaw keys final tx later ↔
      KnownIfListed keys final tx :=
  registerLaw_iff hDerive hInjective
    (addresses_of_run hDerive hInjective hNew hRun).1 hRanked
    hSigned later

end Derivation

/- An unconfirmed transaction that pays somebody else. -/
def foreignTx : BRTransaction Nat :=
  sampleTx 3 [sampleInput 0 0]
    [{ amount := 10000, script := [7] }] TX_UNCONFIRMED

def emptyWallet : BRWallet Nat (Bool × Nat) :=
  (new indexKeys [] 0).get (by decide +kernel)

theorem new_emptyWallet :
    new indexKeys [] 0 = some emptyWallet :=
  (Option.some_get _).symm

theorem registerLaw_iff_of_run_foreign :
    RegisterLaw indexKeys emptyWallet foreignTx 0 ↔
      KnownIfListed indexKeys emptyWallet foreignTx :=
  have hRun :
      Run.run (step indexKeys) emptyWallet [] =
        some emptyWallet := rfl
  have hRanked :
      Ranked id (emptyWallet.allTx.add foreignTx) :=
    ranked_of_records (by decide +kernel)
  registerLaw_iff_of_run (fun _ _ => rfl)
    (fun internal => Prod.mk_right_injective internal)
    new_emptyWallet hRun hRanked (by decide +kernel) 0

/- The second time it is said to be registered. -/
theorem foreign_not_listed :
    ¬ ∀ final,
      Run.run (step indexKeys) emptyWallet
          [.register foreignTx 0] =
        some final →
          RegisterLaw indexKeys final foreignTx 0 := by
  intro hAll
  have hRun :
      (Run.run (step indexKeys) emptyWallet
          [.register foreignTx 0]).map
            (fun final =>
              (registerResult indexKeys final foreignTx,
                (final.registerTransaction indexKeys foreignTx
                  0).map fun next => next.transactions)) =
        some (true, some []) := by
    decide +kernel
  rw [Option.map_eq_some_iff] at hRun
  rcases hRun with ⟨final, hFinal, hEnd⟩
  rw [Prod.mk.injEq] at hEnd
  rcases (hAll final hFinal).result with
    ⟨next, hNext, hTrue, -⟩
  rw [hNext, Option.map_some, Option.some.injEq] at hEnd
  have hListed := hTrue.mp hEnd.1
  rw [hEnd.2] at hListed
  cases hListed

end BRWallet

end PlusWallet
