import PlusWallet.Library.MapM
import PlusWallet.Wallet.Order

/-
  What one round of `_BRWalletUpdateBalance` does, and what
  comes of a list of transactions that are all counted: the
  same balance and the same coins in any order.

  Main declarations:
    * `BRWallet.ownCoins`
    * `BRWallet.Refuses`, `BRWallet.Postpones`
    * `BRWallet.passTx_of_counted`
    * `BRWallet.NeverNegative`
    * `BRWallet.balance_of_perm`
-/

namespace PlusWallet

namespace BRWallet

variable {Hash Address : Type}
variable [DecidableEq Hash] [DecidableEq Address]
variable {keys : WalletKeys Address}
variable {wallet next : BRWallet Hash Address}

------------------------------------------------------------
-- Outputs
------------------------------------------------------------

/- The outputs that pay the wallet, with their amounts. -/
def ownCoins
    (reads : Reads Hash Address)
    (hash : Hash) :
    Nat → List BRTxOutput → List (BRUTXO Hash × UInt64)
  | _, [] => []
  | j, output :: rest =>
      let others := ownCoins reads hash (j + 1) rest
      match reads.keys.outputAddress output with
      | none => others
      | some address =>
          if address ∈ reads.allAddrs then
            (⟨hash, UInt32.ofNat j⟩, output.amount) :: others
          else others

omit [DecidableEq Hash] in
/- Adding outputs adds the coins that pay the wallet. -/
theorem addOutputs_eq
    (reads : Reads Hash Address)
    (hash : Hash)
    (j : Nat)
    (outputs : List BRTxOutput)
    (pass : Pass Hash Address) :
    ∃ usedAddrs,
      addOutputs reads hash j outputs pass =
        { pass with
          utxos :=
            pass.utxos ++
              (ownCoins reads hash j outputs).map Prod.fst
          balance :=
            pass.balance +
              ((ownCoins reads hash j outputs).map
                Prod.snd).sum
          usedAddrs := usedAddrs } := by
  induction outputs generalizing j pass with
  | nil =>
      refine ⟨pass.usedAddrs, ?_⟩
      simp [addOutputs, ownCoins]
  | cons output rest ih =>
      unfold addOutputs ownCoins
      cases reads.keys.outputAddress output with
      | none => exact ih (j + 1) pass
      | some address =>
          dsimp only
          split_ifs with hOwn
          · rcases ih (j + 1)
                { pass with
                  usedAddrs := insert address pass.usedAddrs
                  utxos :=
                    pass.utxos ++ [⟨hash, UInt32.ofNat j⟩]
                  balance := pass.balance + output.amount }
              with ⟨usedAddrs, hAdded⟩
            refine ⟨usedAddrs, ?_⟩
            rw [hAdded]
            simp [add_assoc]
          · exact
              ih (j + 1)
                { pass with
                  usedAddrs := insert address pass.usedAddrs }

omit [DecidableEq Address] in
/- Pruning drops the spent coins and their amounts. -/
theorem prune_eq
    (reads : Reads Hash Address)
    (spentOutputs : Finset (BRUTXO Hash))
    (utxos : List (BRUTXO Hash))
    (balance : UInt64) :
    prune reads spentOutputs utxos balance =
      (utxos.filter (· ∉ spentOutputs),
        balance -
          ((utxos.filter (· ∈ spentOutputs)).map
            reads.amount).sum) := by
  induction utxos with
  | nil => simp [prune]
  | cons utxo rest ih =>
      unfold prune
      rw [ih]
      by_cases hSpent : utxo ∈ spentOutputs
      · simp [hSpent, sub_sub, add_comm]
      · simp [hSpent]

------------------------------------------------------------
-- One Round
------------------------------------------------------------

/- An input is invalid or already spent. -/
def Refuses
    (pass : Pass Hash Address)
    (tx : BRTransaction Hash) : Prop :=
  tx.blockHeight = TX_UNCONFIRMED ∧
    ∃ input ∈ tx.inputs,
      input.utxo ∈ pass.spentOutputs ∨
        input.txHash ∈ pass.invalidTx

/- The transaction or a transaction it spends is pending. -/
def Postpones
    (reads : Reads Hash Address)
    (pass : Pass Hash Address)
    (tx : BRTransaction Hash) : Prop :=
  tx.blockHeight = TX_UNCONFIRMED ∧
    (selfPending reads.blockHeight reads.now tx = true ∨
      ∃ input ∈ tx.inputs, input.txHash ∈ pass.pendingTx)

/- The inputs of a transaction are spent. -/
def spend
    (pass : Pass Hash Address)
    (tx : BRTransaction Hash) : Pass Hash Address :=
  { pass with
    spentOutputs :=
      pass.spentOutputs ∪
        (tx.inputs.map BRTxInput.utxo).toFinset }

theorem passTx_of_refused
    (reads : Reads Hash Address)
    {pass : Pass Hash Address}
    {tx : BRTransaction Hash}
    (hRefused : Refuses pass tx) :
    passTx reads pass tx =
      { pass with
        invalidTx := insert tx.txHash pass.invalidTx
        balanceHist := pass.balanceHist ++ [pass.balance] } := by
  unfold passTx
  dsimp only
  rw [if_pos]
  simpa [Refuses] using hRefused

theorem passTx_of_postponed
    {reads : Reads Hash Address}
    {pass : Pass Hash Address}
    {tx : BRTransaction Hash}
    (hTaken : ¬ Refuses pass tx)
    (hPostponed : Postpones reads pass tx) :
    passTx reads pass tx =
      { spend pass tx with
        pendingTx := insert tx.txHash pass.pendingTx
        balanceHist := pass.balanceHist ++ [pass.balance] } := by
  unfold passTx
  dsimp only
  rw [if_neg, if_pos]
  · rfl
  · simpa [Postpones] using hPostponed
  · simpa [Refuses] using hTaken

/- The coins before pruning in the round of a transaction. -/
def coinsWith
    (reads : Reads Hash Address)
    (pass : Pass Hash Address)
    (tx : BRTransaction Hash) : List (BRUTXO Hash) :=
  pass.utxos ++
    (ownCoins reads tx.txHash 0 tx.outputs).map Prod.fst

/- The balance before pruning. -/
def balanceWith
    (reads : Reads Hash Address)
    (pass : Pass Hash Address)
    (tx : BRTransaction Hash) : UInt64 :=
  pass.balance +
    ((ownCoins reads tx.txHash 0 tx.outputs).map Prod.snd).sum

/- A transaction that is counted: its coins come, others go. -/
theorem passTx_of_counted
    {reads : Reads Hash Address}
    {pass : Pass Hash Address}
    {tx : BRTransaction Hash}
    (hTaken : ¬ Refuses pass tx)
    (hFinal : ¬ Postpones reads pass tx) :
    let spent := (spend pass tx).spentOutputs
    let coins := coinsWith reads pass tx
    let after := passTx reads pass tx
    after.spentOutputs = spent ∧
      after.utxos = coins.filter (· ∉ spent) ∧
      after.balance =
        balanceWith reads pass tx -
          ((coins.filter (· ∈ spent)).map reads.amount).sum ∧
      after.invalidTx = pass.invalidTx ∧
      after.pendingTx = pass.pendingTx := by
  rcases
      addOutputs_eq reads tx.txHash 0 tx.outputs
        (spend pass tx) with
    ⟨usedAddrs, hAdded⟩
  dsimp only
  unfold passTx
  dsimp only
  rw [if_neg, if_neg]
  · unfold spend at hAdded
    dsimp only at hAdded
    rw [hAdded, prune_eq]
    exact ⟨rfl, rfl, rfl, rfl, rfl⟩
  · simpa [Postpones] using hFinal
  · simpa [Refuses] using hTaken

------------------------------------------------------------
-- All Rounds
------------------------------------------------------------

/- The outputs that the transactions spend. -/
def spentBy
    (txs : List (BRTransaction Hash)) :
    Finset (BRUTXO Hash) :=
  (txs.flatMap fun tx =>
    tx.inputs.map BRTxInput.utxo).toFinset

/- The coins that the transactions bring. -/
def coinsOf
    (reads : Reads Hash Address)
    (txs : List (BRTransaction Hash)) :
    List (BRUTXO Hash × UInt64) :=
  txs.flatMap fun tx => ownCoins reads tx.txHash 0 tx.outputs

/- No transaction of the list is pending by itself. -/
def AllFinal
    (reads : Reads Hash Address)
    (txs : List (BRTransaction Hash)) : Prop :=
  ∀ tx ∈ txs, tx.blockHeight = TX_UNCONFIRMED →
    selfPending reads.blockHeight reads.now tx = false

/- No output is spent by two transactions of the list. -/
def NoDoubleSpend (txs : List (BRTransaction Hash)) : Prop :=
  txs.Pairwise fun tx other =>
    ∀ input ∈ tx.inputs, ∀ another ∈ other.inputs,
      input.utxo ≠ another.utxo

/- All transactions so far were counted. -/
structure Counted
    (reads : Reads Hash Address)
    (txs : List (BRTransaction Hash))
    (pass : Pass Hash Address) : Prop where
  spent : pass.spentOutputs = spentBy txs
  utxos :
    pass.utxos =
      ((coinsOf reads txs).map Prod.fst).filter
        (· ∉ spentBy txs)
  balance :
    pass.balance =
      ((coinsOf reads txs).map Prod.snd).sum -
        ((((coinsOf reads txs).map Prod.fst).filter
          (· ∈ spentBy txs)).map reads.amount).sum
  valid : pass.invalidTx = ∅
  final : pass.pendingTx = ∅

theorem counted_start
    (reads : Reads Hash Address) :
    Counted reads [] Pass.start where
  spent := rfl
  utxos := rfl
  balance := by simp [coinsOf, Pass.start]
  valid := rfl
  final := rfl

/- What is spent so far and what one more transaction spends. -/
theorem spentBy_append
    (txs : List (BRTransaction Hash))
    (tx : BRTransaction Hash) :
    spentBy (txs ++ [tx]) =
      spentBy txs ∪
        (tx.inputs.map BRTxInput.utxo).toFinset := by
  simp [spentBy]

omit [DecidableEq Hash] in
theorem coinsOf_append
    (reads : Reads Hash Address)
    (txs others : List (BRTransaction Hash)) :
    coinsOf reads (txs ++ others) =
      coinsOf reads txs ++ coinsOf reads others :=
  List.flatMap_append

omit [DecidableEq Hash] in
theorem coinsOf_concat
    (reads : Reads Hash Address)
    (txs : List (BRTransaction Hash))
    (tx : BRTransaction Hash) :
    coinsOf reads (txs ++ [tx]) =
      coinsOf reads txs ++
        ownCoins reads tx.txHash 0 tx.outputs := by
  simp [coinsOf]

/- A final transaction that spends nothing twice is counted. -/
theorem Counted.taken
    {reads : Reads Hash Address}
    {txs : List (BRTransaction Hash)}
    {pass : Pass Hash Address}
    {tx : BRTransaction Hash}
    (hCounted : Counted reads txs pass)
    (hSpends : NoDoubleSpend (txs ++ [tx]))
    (hFinal :
      tx.blockHeight = TX_UNCONFIRMED →
        selfPending reads.blockHeight reads.now tx = false) :
    ¬ Refuses pass tx ∧ ¬ Postpones reads pass tx := by
  constructor
  · rintro ⟨-, input, hInput, hSpent | hInvalid⟩
    · rw [hCounted.spent, spentBy, List.mem_toFinset,
        List.mem_flatMap] at hSpent
      rcases hSpent with ⟨other, hOther, hSpent⟩
      rcases List.mem_map.mp hSpent with
        ⟨another, hAnother, hSame⟩
      have hApart :=
        (List.pairwise_append.mp hSpends).2.2 other hOther tx
          (List.mem_singleton_self tx)
      exact hApart another hAnother input hInput hSame
    · rw [hCounted.valid] at hInvalid
      exact absurd hInvalid (Finset.notMem_empty _)
  · rintro ⟨hUnconfirmed, hSelf | ⟨input, -, hPending⟩⟩
    · rw [hFinal hUnconfirmed] at hSelf
      cases hSelf
    · rw [hCounted.final] at hPending
      exact absurd hPending (Finset.notMem_empty _)

omit [DecidableEq Address] in
/- What a smaller set leaves and takes, of a larger one. -/
theorem sum_filter_union
    (amount : BRUTXO Hash → UInt64)
    (spent more : Finset (BRUTXO Hash))
    (utxos : List (BRUTXO Hash)) :
    ((utxos.filter (· ∈ spent)).map amount).sum +
        (((utxos.filter (· ∉ spent)).filter
          (· ∈ spent ∪ more)).map amount).sum =
      ((utxos.filter (· ∈ spent ∪ more)).map amount).sum := by
  induction utxos with
  | nil => simp
  | cons utxo rest ih =>
      simp only [Finset.mem_union] at ih ⊢
      by_cases hSpent : utxo ∈ spent
      · simpa [hSpent, add_assoc] using ih
      · by_cases hMore : utxo ∈ more
        · simpa [hSpent, hMore, add_left_comm] using ih
        · simpa [hSpent, hMore] using ih

omit [DecidableEq Address] in
/- What is left after two prunings. -/
theorem filter_notMem_union
    (spent more : Finset (BRUTXO Hash))
    (utxos : List (BRUTXO Hash)) :
    (utxos.filter (· ∉ spent)).filter (· ∉ spent ∪ more) =
      utxos.filter (· ∉ spent ∪ more) := by
  rw [List.filter_filter]
  apply List.filter_congr
  intro utxo _
  by_cases hSpent : utxo ∈ spent <;> simp [hSpent]

theorem counted_passTx
    {reads : Reads Hash Address}
    {txs : List (BRTransaction Hash)}
    {pass : Pass Hash Address}
    {tx : BRTransaction Hash}
    (hCounted : Counted reads txs pass)
    (hSpends : NoDoubleSpend (txs ++ [tx]))
    (hFinal :
      tx.blockHeight = TX_UNCONFIRMED →
        selfPending reads.blockHeight reads.now tx = false) :
    Counted reads (txs ++ [tx]) (passTx reads pass tx) := by
  rcases hCounted.taken hSpends hFinal with ⟨hTaken, hNow⟩
  rcases passTx_of_counted hTaken hNow with
    ⟨hSpent, hUtxos, hBalance, hValid, hPending⟩
  have hUnion :
      (spend pass tx).spentOutputs = spentBy (txs ++ [tx]) := by
    rw [spentBy_append, ← hCounted.spent]
    rfl
  rw [hUnion] at hSpent hUtxos hBalance
  refine
    ⟨hSpent, ?_, ?_, hValid.trans hCounted.valid,
      hPending.trans hCounted.final⟩
  · rw [hUtxos, coinsWith, hCounted.utxos, coinsOf_concat,
      spentBy_append, List.map_append, List.filter_append,
      List.filter_append, filter_notMem_union]
  · have hSum :=
      sum_filter_union reads.amount (spentBy txs)
        (tx.inputs.map BRTxInput.utxo).toFinset
        ((coinsOf reads txs).map Prod.fst)
    rw [hBalance, balanceWith, coinsWith, hCounted.balance,
      hCounted.utxos, coinsOf_concat, spentBy_append,
      List.map_append, List.map_append, List.sum_append,
      List.filter_append, List.filter_append, List.map_append,
      List.map_append, List.sum_append, List.sum_append, ← hSum]
    abel

/- Every transaction of the list is counted. -/
theorem counted_passAll
    {reads : Reads Hash Address}
    {txs : List (BRTransaction Hash)}
    (hSpends : NoDoubleSpend txs)
    (hFinal : AllFinal reads txs) :
    Counted reads txs (passAll reads txs) := by
  induction txs using List.reverseRecOn with
  | nil => exact counted_start reads
  | append_singleton txs tx ih =>
      have hBefore : NoDoubleSpend txs :=
        (List.pairwise_append.mp hSpends).1
      have hCounted :=
        ih hBefore fun other hOther =>
          hFinal other (List.mem_append_left _ hOther)
      unfold passAll at hCounted ⊢
      rw [List.foldl_append]
      exact
        counted_passTx hCounted hSpends
          (hFinal tx (by simp))

------------------------------------------------------------
-- Orders
------------------------------------------------------------

theorem spentBy_perm
    {txs others : List (BRTransaction Hash)}
    (hPerm : txs.Perm others) :
    spentBy txs = spentBy others :=
  List.toFinset_eq_of_perm _ _ (hPerm.flatMap_right _)

omit [DecidableEq Hash] in
theorem NoDoubleSpend.perm
    {txs others : List (BRTransaction Hash)}
    (hSpends : NoDoubleSpend txs)
    (hPerm : txs.Perm others) :
    NoDoubleSpend others := by
  refine hPerm.pairwise hSpends ?_
  intro tx other hApart input hInput another hAnother hSame
  exact hApart another hAnother input hInput hSame.symm

omit [DecidableEq Hash] in
theorem coinsOf_perm
    {reads : Reads Hash Address}
    {txs others : List (BRTransaction Hash)}
    (hPerm : txs.Perm others) :
    (coinsOf reads txs).Perm (coinsOf reads others) :=
  hPerm.flatMap_right _

/- Two orders of the same transactions count the same. -/
theorem passAll_perm
    {reads : Reads Hash Address}
    {txs others : List (BRTransaction Hash)}
    (hPerm : txs.Perm others)
    (hSpends : NoDoubleSpend txs)
    (hFinal : AllFinal reads txs) :
    (passAll reads txs).balance =
        (passAll reads others).balance ∧
      (passAll reads txs).utxos.Perm
        (passAll reads others).utxos := by
  have hOne := counted_passAll hSpends hFinal
  have hOther :=
    counted_passAll (hSpends.perm hPerm) fun tx hTx =>
      hFinal tx (hPerm.mem_iff.mpr hTx)
  have hCoins : (coinsOf reads txs).Perm (coinsOf reads others) :=
    coinsOf_perm hPerm
  have hFirst := hCoins.map Prod.fst
  rw [hOne.balance, hOther.balance, hOne.utxos, hOther.utxos,
    spentBy_perm hPerm, (hCoins.map Prod.snd).sum_eq]
  refine ⟨?_, hFirst.filter _⟩
  rw [((hFirst.filter _).map reads.amount).sum_eq]

------------------------------------------------------------
-- Subtractions
------------------------------------------------------------

/- No subtraction of a pruning goes below zero. -/
def Covers
    (reads : Reads Hash Address)
    (spentOutputs : Finset (BRUTXO Hash)) :
    List (BRUTXO Hash) → UInt64 → Prop
  | [], _ => True
  | utxo :: rest, balance =>
      Covers reads spentOutputs rest balance ∧
        (utxo ∈ spentOutputs →
          reads.amount utxo ≤
            (prune reads spentOutputs rest balance).2)

/- No subtraction of the loop goes below zero. -/
def NeverNegative
    (reads : Reads Hash Address) :
    Pass Hash Address → List (BRTransaction Hash) → Prop
  | _, [] => True
  | pass, tx :: txs =>
      (¬ Refuses pass tx → ¬ Postpones reads pass tx →
          Covers reads (spend pass tx).spentOutputs
            (coinsWith reads pass tx)
            (balanceWith reads pass tx)) ∧
        NeverNegative reads (passTx reads pass tx) txs

instance Covers.decidable
    (reads : Reads Hash Address)
    (spentOutputs : Finset (BRUTXO Hash))
    (utxos : List (BRUTXO Hash))
    (balance : UInt64) :
    Decidable (Covers reads spentOutputs utxos balance) :=
  match utxos with
  | [] => isTrue trivial
  | utxo :: rest =>
      have :=
        Covers.decidable reads spentOutputs rest balance
      inferInstanceAs
        (Decidable
          (Covers reads spentOutputs rest balance ∧
            (utxo ∈ spentOutputs →
              reads.amount utxo ≤
                (prune reads spentOutputs rest balance).2)))

instance NeverNegative.decidable
    (reads : Reads Hash Address)
    (pass : Pass Hash Address)
    (txs : List (BRTransaction Hash)) :
    Decidable (NeverNegative reads pass txs) :=
  match txs with
  | [] => isTrue trivial
  | tx :: txs =>
      have :=
        NeverNegative.decidable reads (passTx reads pass tx) txs
      have : Decidable (Refuses pass tx) :=
        inferInstanceAs (Decidable (_ ∧ _))
      have : Decidable (Postpones reads pass tx) :=
        inferInstanceAs (Decidable (_ ∧ _))
      inferInstanceAs
        (Decidable
          ((¬ Refuses pass tx → ¬ Postpones reads pass tx →
              Covers reads (spend pass tx).spentOutputs
                (coinsWith reads pass tx)
                (balanceWith reads pass tx)) ∧
            NeverNegative reads (passTx reads pass tx) txs))

/- The amounts of some coins, as a number. -/
def totalOf
    (reads : Reads Hash Address)
    (utxos : List (BRUTXO Hash)) : Nat :=
  (utxos.map fun utxo => (reads.amount utxo).toNat).sum

omit [DecidableEq Address] in
theorem totalOf_filter_add
    (reads : Reads Hash Address)
    (spent : Finset (BRUTXO Hash))
    (utxos : List (BRUTXO Hash)) :
    totalOf reads (utxos.filter (· ∈ spent)) +
        totalOf reads (utxos.filter (· ∉ spent)) =
      totalOf reads utxos := by
  induction utxos with
  | nil => rfl
  | cons utxo rest ih =>
      unfold totalOf at ih ⊢
      by_cases hSpent : utxo ∈ spent
      · simp [hSpent, ← ih]
        omega
      · simp [hSpent, ← ih]
        omega

omit [DecidableEq Address] in
/- A balance that has all the coins covers their pruning. -/
theorem covers_of_total
    (reads : Reads Hash Address)
    (spent : Finset (BRUTXO Hash))
    {utxos : List (BRUTXO Hash)}
    {balance : UInt64}
    (hTotal : totalOf reads utxos ≤ balance.toNat) :
    Covers reads spent utxos balance ∧
      (prune reads spent utxos balance).2.toNat +
          totalOf reads (utxos.filter (· ∈ spent)) =
        balance.toNat := by
  induction utxos with
  | nil => exact ⟨trivial, rfl⟩
  | cons utxo rest ih =>
      have hSplit :
          totalOf reads (utxo :: rest) =
            (reads.amount utxo).toNat + totalOf reads rest := by
        simp [totalOf]
      have hParts := totalOf_filter_add reads spent rest
      rcases ih (by omega) with ⟨hRest, hPruned⟩
      have hCovered :
          reads.amount utxo ≤
            (prune reads spent rest balance).2 := by
        rw [UInt64.le_iff_toNat_le]
        omega
      refine ⟨⟨hRest, fun _ => hCovered⟩, ?_⟩
      unfold prune
      dsimp only
      by_cases hSpent : utxo ∈ spent
      · have hKept :
            totalOf reads
                ((utxo :: rest).filter (· ∈ spent)) =
              (reads.amount utxo).toNat +
                totalOf reads (rest.filter (· ∈ spent)) := by
          simp [totalOf, hSpent]
        rw [UInt64.le_iff_toNat_le] at hCovered
        rw [if_pos hSpent, hKept]
        dsimp only
        rw [UInt64.toNat_sub_of_le _ _
          (UInt64.le_iff_toNat_le.mpr hCovered)]
        omega
      · have hKept :
            (utxo :: rest).filter (· ∈ spent) =
              rest.filter (· ∈ spent) := by
          simp [hSpent]
        rw [if_neg hSpent, hKept]
        exact hPruned

/- Transactions that are records of the wallet. -/
def Known
    (reads : Reads Hash Address)
    (txs : List (BRTransaction Hash)) : Prop :=
  ∀ tx ∈ txs, reads.allTx.get tx.txHash = some tx

/- Output indices and the amounts together fit their words. -/
structure Moderate
    (reads : Reads Hash Address)
    (txs : List (BRTransaction Hash)) : Prop where
  indices : ∀ tx ∈ txs, tx.outputs.length ≤ 2 ^ 32
  total :
    ((coinsOf reads txs).map fun coin => coin.2.toNat).sum <
      2 ^ 64

omit [DecidableEq Hash] in
/- A coin stands at its index among the outputs. -/
theorem getElem?_of_mem_ownCoins
    (reads : Reads Hash Address)
    (hash : Hash)
    {j : Nat}
    {outputs : List BRTxOutput}
    {utxo : BRUTXO Hash}
    {amount : UInt64}
    (hMem : (utxo, amount) ∈ ownCoins reads hash j outputs) :
    utxo.hash = hash ∧
      ∃ position output,
        outputs[position]? = some output ∧
          output.amount = amount ∧
          utxo.n = UInt32.ofNat (j + position) := by
  induction outputs generalizing j with
  | nil => cases hMem
  | cons output rest ih =>
      have hLater :
          (utxo, amount) ∈ ownCoins reads hash (j + 1) rest →
            utxo.hash = hash ∧
              ∃ position other,
                (output :: rest)[position]? = some other ∧
                  other.amount = amount ∧
                  utxo.n = UInt32.ofNat (j + position) := by
        intro hRest
        rcases ih hRest with
          ⟨hHash, position, other, hOther, hAmount, hIndex⟩
        refine
          ⟨hHash, position + 1, other, hOther, hAmount, ?_⟩
        rw [hIndex, Nat.add_right_comm, Nat.add_assoc]
      unfold ownCoins at hMem
      dsimp only at hMem
      split at hMem
      · exact hLater hMem
      · split_ifs at hMem
        · rcases List.mem_cons.mp hMem with hHere | hRest
          · cases hHere
            exact ⟨rfl, 0, output, rfl, rfl, rfl⟩
          · exact hLater hRest
        · exact hLater hMem

theorem Moderate.amount_eq
    {reads : Reads Hash Address}
    {txs : List (BRTransaction Hash)}
    (hModerate : Moderate reads txs)
    (hKnown : Known reads txs)
    {coin : BRUTXO Hash × UInt64}
    (hCoin : coin ∈ coinsOf reads txs) :
    reads.amount coin.1 = coin.2 := by
  rcases List.mem_flatMap.mp hCoin with ⟨tx, hTx, hOwn⟩
  rcases getElem?_of_mem_ownCoins reads tx.txHash hOwn with
    ⟨hHash, position, output, hOutput, hAmount, hIndex⟩
  have hLess : position < tx.outputs.length :=
    (List.getElem?_eq_some_iff.mp hOutput).1
  have hFits := hModerate.indices tx hTx
  have hPlace : coin.1.n.toNat = position := by
    rw [hIndex, Nat.zero_add, UInt32.toNat_ofNat']
    exact Nat.mod_eq_of_lt (by omega)
  unfold Reads.amount spentOutput
  rw [hHash, hKnown tx hTx, Option.bind_eq_bind,
    Option.bind_some, hPlace, hOutput]
  exact hAmount

theorem Moderate.totalOf_eq
    {reads : Reads Hash Address}
    {txs : List (BRTransaction Hash)}
    (hModerate : Moderate reads txs)
    (hKnown : Known reads txs)
    {coins : List (BRUTXO Hash × UInt64)}
    (hCoins : coins ⊆ coinsOf reads txs) :
    totalOf reads (coins.map Prod.fst) =
      (coins.map fun coin => coin.2.toNat).sum := by
  unfold totalOf
  rw [List.map_map]
  congr 1
  apply List.map_congr_left
  intro coin hCoin
  simp [hModerate.amount_eq hKnown (hCoins hCoin)]

/- Amounts that add up to less than a word add up in a word. -/
theorem toNat_sum
    (amounts : List UInt64)
    (hTotal : (amounts.map UInt64.toNat).sum < 2 ^ 64) :
    amounts.sum.toNat = (amounts.map UInt64.toNat).sum := by
  induction amounts with
  | nil => rfl
  | cons amount amounts ih =>
      rw [List.map_cons, List.sum_cons] at hTotal ⊢
      rw [List.sum_cons, UInt64.toNat_add, ih (by omega),
        Nat.mod_eq_of_lt hTotal]

/- The coins of one more transaction are added up. -/
theorem toNat_balanceWith
    {reads : Reads Hash Address}
    {txs : List (BRTransaction Hash)}
    (hKnown : Known reads txs)
    (hModerate : Moderate reads txs)
    {pass : Pass Hash Address}
    {tx : BRTransaction Hash}
    (hOwn :
      ownCoins reads tx.txHash 0 tx.outputs ⊆
        coinsOf reads txs)
    (hBalance :
      pass.balance.toNat = totalOf reads pass.utxos)
    (hFits :
      totalOf reads pass.utxos +
          ((ownCoins reads tx.txHash 0 tx.outputs).map
            fun coin => coin.2.toNat).sum <
        2 ^ 64) :
    (balanceWith reads pass tx).toNat =
      totalOf reads (coinsWith reads pass tx) := by
  have hSum :=
    toNat_sum
      ((ownCoins reads tx.txHash 0 tx.outputs).map Prod.snd)
  have hTotal := hModerate.totalOf_eq hKnown hOwn
  rw [List.map_map] at hSum
  simp only [Function.comp_def] at hSum
  unfold balanceWith coinsWith
  unfold totalOf at hTotal hBalance hFits ⊢
  rw [List.map_append, List.sum_append, hTotal,
    UInt64.toNat_add, hSum (by omega), hBalance]
  exact Nat.mod_eq_of_lt hFits

/- One round in which the balance is that of the coins. -/
theorem balance_passTx
    {reads : Reads Hash Address}
    {pass : Pass Hash Address}
    {tx : BRTransaction Hash}
    (hTaken : ¬ Refuses pass tx)
    (hFinal : ¬ Postpones reads pass tx)
    (hWith :
      (balanceWith reads pass tx).toNat =
        totalOf reads (coinsWith reads pass tx)) :
    Covers reads (spend pass tx).spentOutputs
        (coinsWith reads pass tx) (balanceWith reads pass tx) ∧
      (passTx reads pass tx).balance.toNat =
        totalOf reads (passTx reads pass tx).utxos := by
  rcases
      covers_of_total reads (spend pass tx).spentOutputs
        hWith.ge with
    ⟨hCovers, hPruned⟩
  rcases passTx_of_counted hTaken hFinal with
    ⟨-, hUtxos, hAfter, -, -⟩
  have hParts :=
    totalOf_filter_add reads (spend pass tx).spentOutputs
      (coinsWith reads pass tx)
  refine ⟨hCovers, ?_⟩
  rw [prune_eq] at hPruned
  dsimp only at hPruned
  rw [hUtxos, hAfter]
  omega

/- The balance of a counted list is that of its coins. -/
theorem neverNegative_of_counted
    {reads : Reads Hash Address}
    {txs : List (BRTransaction Hash)}
    (hKnown : Known reads txs)
    (hModerate : Moderate reads txs)
    (hSpends : NoDoubleSpend txs)
    (hFinal : AllFinal reads txs)
    {before after : List (BRTransaction Hash)}
    (hSplit : txs = before ++ after)
    {pass : Pass Hash Address}
    (hCounted : Counted reads before pass)
    (hBalance :
      pass.balance.toNat = totalOf reads pass.utxos) :
    NeverNegative reads pass after := by
  induction after generalizing before pass with
  | nil => trivial
  | cons tx after ih =>
      have hShift : txs = (before ++ [tx]) ++ after := by
        rw [hSplit, List.append_assoc]
        rfl
      have hSpendsHere : NoDoubleSpend (before ++ [tx]) := by
        rw [hShift] at hSpends
        exact (List.pairwise_append.mp hSpends).1
      have hFinalHere := hFinal tx (by simp [hSplit])
      rcases hCounted.taken hSpendsHere hFinalHere with
        ⟨hTaken, hNow⟩
      have hAll :
          coinsOf reads txs =
            coinsOf reads before ++
              (ownCoins reads tx.txHash 0 tx.outputs ++
                coinsOf reads after) := by
        rw [hShift, coinsOf_append, coinsOf_concat,
          List.append_assoc]
      have hBefore :
          coinsOf reads before ⊆ coinsOf reads txs := by
        rw [hAll]
        exact List.subset_append_left _ _
      have hOwn :
          ownCoins reads tx.txHash 0 tx.outputs ⊆
            coinsOf reads txs := by
        rw [hAll]
        exact
          List.Subset.trans (List.subset_append_left _ _)
            (List.subset_append_right _ _)
      have hLeft :
          totalOf reads pass.utxos ≤
            ((coinsOf reads before).map
              fun coin => coin.2.toNat).sum := by
        have hParts :=
          totalOf_filter_add reads (spentBy before)
            ((coinsOf reads before).map Prod.fst)
        rw [hCounted.utxos, ← hModerate.totalOf_eq hKnown hBefore]
        omega
      have hTotal := hModerate.total
      rw [hAll, List.map_append, List.map_append,
        List.sum_append, List.sum_append] at hTotal
      have hWith :=
        toNat_balanceWith hKnown hModerate hOwn hBalance (by omega)
      rcases balance_passTx hTaken hNow hWith with
        ⟨hCovers, hAfter⟩
      exact
        ⟨fun _ _ => hCovers,
          ih hShift
            (counted_passTx hCounted hSpendsHere hFinalHere)
            hAfter⟩

/-
  The order of transactions that are final and spend nothing
  twice does not matter; and where their amounts fit a word
  nothing goes below zero on the way.
-/
theorem balance_of_perm
    {transactions : List Hash}
    {txs : List (BRTransaction Hash)}
    {now : Nat}
    (hListed : wallet.listed = some txs)
    (hPerm : transactions.Perm wallet.transactions)
    (hSpends : NoDoubleSpend txs)
    (hFinal : AllFinal (wallet.reads keys now) txs) :
    ∃ one other others,
      wallet.updateBalance keys now = some one ∧
        transactions.mapM wallet.allTx.get = some others ∧
        updateBalance keys
            { wallet with transactions := transactions } now =
          some other ∧
        one.balance = other.balance ∧
        one.utxos.Perm other.utxos ∧
        (Moderate (wallet.reads keys now) txs →
          NeverNegative (wallet.reads keys now) Pass.start
            others) := by
  rcases MapM.exists_perm hPerm hListed with
    ⟨others, hOthers, hSame⟩
  have hSpendsOthers := hSpends.perm hSame.symm
  have hFinalOthers :
      AllFinal (wallet.reads keys now) others :=
    fun tx hTx => hFinal tx (hSame.mem_iff.mp hTx)
  have hOrders := passAll_perm hSame.symm hSpends hFinal
  refine
    ⟨wallet.setPass (passAll (wallet.reads keys now) txs),
      ({ wallet with
          transactions := transactions } :
            BRWallet Hash Address).setPass
        (passAll (wallet.reads keys now) others),
      others, ?_, hOthers, ?_, hOrders.1, hOrders.2, ?_⟩
  · unfold updateBalance
    rw [hListed]
    rfl
  · unfold updateBalance listed
    dsimp only
    rw [hOthers]
    rfl
  · intro hModerate
    have hCoins := (coinsOf_perm hSame :
      (coinsOf (wallet.reads keys now) others).Perm
        (coinsOf (wallet.reads keys now) txs))
    have hThere :
        Moderate (wallet.reads keys now) others :=
      { indices := fun tx hTx =>
          hModerate.indices tx (hSame.mem_iff.mp hTx)
        total := by
          rw [(hCoins.map fun coin => coin.2.toNat).sum_eq]
          exact hModerate.total }
    have hKnown :
        Known (wallet.reads keys now) others := by
      intro tx hTx
      rcases MapM.exists_of_mem hOthers hTx with
        ⟨hash, -, hGet⟩
      rw [KeyedSet.key_of_get hGet]
      exact hGet
    exact
      neverNegative_of_counted hKnown hThere hSpendsOthers
        hFinalOthers rfl (counted_start _) rfl

/- Two payments of more than a word together, one spent. -/
def hugeList : List (BRTransaction Nat) :=
  [sampleTx 1 [sampleInput 100 0]
      [{ amount := 2 ^ 63, script := [0, 0] },
        { amount := 2 ^ 63 + 5, script := [0, 1] }] 5,
    sampleTx 2 [sampleInput 1 0]
      [{ amount := 10000, script := [7] }] 6]

def hugeWallet : BRWallet Nat (Bool × Nat) :=
  (new indexKeys hugeList 0).get (by decide +kernel)

theorem listed_hugeWallet :
    hugeWallet.listed = some hugeList := by
  decide +kernel

theorem noDoubleSpend_hugeList : NoDoubleSpend hugeList := by
  unfold NoDoubleSpend
  decide +kernel

theorem allFinal_hugeList :
    AllFinal (hugeWallet.reads indexKeys 0) hugeList := by
  unfold AllFinal
  decide +kernel

theorem balance_of_perm_huge :
    ∃ one other others,
      hugeWallet.updateBalance indexKeys 0 = some one ∧
        [2, 1].mapM hugeWallet.allTx.get = some others ∧
        updateBalance indexKeys
            { hugeWallet with transactions := [2, 1] } 0 =
          some other ∧
        one.balance = other.balance ∧
        one.utxos.Perm other.utxos ∧
        (Moderate (hugeWallet.reads indexKeys 0) hugeList →
          NeverNegative (hugeWallet.reads indexKeys 0)
            Pass.start others) :=
  balance_of_perm listed_hugeWallet (by decide +kernel)
    noDoubleSpend_hugeList allFinal_hugeList

/- The sum of the two wraps, and one of them is subtracted. -/
theorem huge_below_zero :
    ¬ ∀ (wallet : BRWallet Nat (Bool × Nat))
        (txs : List (BRTransaction Nat)),
      wallet.listed = some txs →
        (∀ tx ∈ txs, tx.isSigned = true) →
        NoDoubleSpend txs →
        AllFinal (wallet.reads indexKeys 0) txs →
          NeverNegative (wallet.reads indexKeys 0) Pass.start
            txs := by
  intro hAll
  have hNever :=
    hAll hugeWallet hugeList listed_hugeWallet
      (by decide +kernel) noDoubleSpend_hugeList
      allFinal_hugeList
  revert hNever
  decide +kernel

end BRWallet

end PlusWallet
