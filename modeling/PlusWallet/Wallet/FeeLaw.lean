import PlusWallet.Wallet.Payment

/-
  The transaction that a wallet creates spends distinct coins
  and pays at least the fee for its size, as long as no sum
  exceeds 64 bits and the fee covers the longer count that a
  253rd output needs.

  Main declarations:
    * `BRWallet.FeeLaw`
    * `BRWallet.NoWrap`
    * `BRWallet.CountCovered`
    * `BRWallet.feeLaw_iff`
    * `BRWallet.not_feeLaw_of_count`
-/

namespace PlusWallet

variable {Hash Address : Type}

namespace BRWallet

------------------------------------------------------------
-- Fees without Wrapping
------------------------------------------------------------

/- The value of `_txFee` when nothing wraps. -/
def feeNat (feePerKb size : Nat) : Nat :=
  max size ((size * feePerKb / 1000 + 99) / 100 * 100)

theorem feeNat_mono
    (feePerKb : Nat)
    {size larger : Nat}
    (hSize : size ≤ larger) :
    feeNat feePerKb size ≤ feeNat feePerKb larger := by
  unfold feeNat
  apply max_le_max hSize
  gcongr

theorem le_feeNat
    (feePerKb size : Nat) :
    size ≤ feeNat feePerKb size :=
  le_max_left _ _

/- A size whose products with both fee rates fit 64 bits. -/
def SizeFits (feePerKb size : Nat) : Prop :=
  size * max feePerKb 1000 < 2 ^ 64

theorem SizeFits.mono
    {feePerKb size larger : Nat}
    (hFits : SizeFits feePerKb larger)
    (hSize : size ≤ larger) :
    SizeFits feePerKb size := by
  unfold SizeFits at *
  exact (Nat.mul_le_mul_right _ hSize).trans_lt hFits

theorem toNat_feeForSize
    {wallet : BRWallet Hash Address}
    {size : Nat}
    (hFits : SizeFits wallet.feePerKb.toNat size) :
    (wallet.feeForSize size).toNat =
      feeNat wallet.feePerKb.toNat size := by
  unfold SizeFits at hFits
  have hStandard : size * 1000 < 2 ^ 64 :=
    (Nat.mul_le_mul_left _ (le_max_right _ _)).trans_lt hFits
  have hRate : size * wallet.feePerKb.toNat < 2 ^ 64 :=
    (Nat.mul_le_mul_left _ (le_max_left _ _)).trans_lt hFits
  have hSize : (UInt64.ofNat size).toNat = size := by
    rw [UInt64.toNat_ofNat']
    exact Nat.mod_eq_of_lt (by omega)
  have hFirst :
      (UInt64.ofNat size * 1000 / 1000).toNat = size := by
    rw [UInt64.toNat_div, UInt64.toNat_mul, hSize]
    have : (1000 : UInt64).toNat = 1000 := rfl
    rw [this, Nat.mod_eq_of_lt hStandard]
    omega
  have hSecond :
      ((UInt64.ofNat size * wallet.feePerKb / 1000 + 99) /
            100 * 100).toNat =
        (size * wallet.feePerKb.toNat / 1000 + 99) / 100 *
          100 := by
    have h1000 : (1000 : UInt64).toNat = 1000 := rfl
    have h99 : (99 : UInt64).toNat = 99 := rfl
    have h100 : (100 : UInt64).toNat = 100 := rfl
    rw [UInt64.toNat_mul, UInt64.toNat_div, UInt64.toNat_add,
      UInt64.toNat_div, UInt64.toNat_mul, hSize, h1000, h99,
      h100, Nat.mod_eq_of_lt hRate,
      Nat.mod_eq_of_lt (by omega),
      Nat.mod_eq_of_lt (by omega)]
  unfold feeForSize txFee feeNat
  simp only
  split_ifs with hLess
  · rw [UInt64.lt_iff_toNat_lt, hFirst, hSecond] at hLess
    rw [hSecond]
    omega
  · rw [UInt64.lt_iff_toNat_lt, hFirst, hSecond] at hLess
    rw [hFirst]
    omega

theorem minOutputAmount_pos
    (wallet : BRWallet Hash Address) :
    0 < wallet.minOutputAmount.toNat := by
  have hMinimum :
      (UInt64.ofNat TX_MIN_OUTPUT_AMOUNT).toNat = 546 := by
    decide
  unfold minOutputAmount
  simp only
  split_ifs with hLess
  · rw [UInt64.lt_iff_toNat_lt, hMinimum] at hLess
    omega
  · omega

------------------------------------------------------------
-- Totals
------------------------------------------------------------

/- The total of some outputs as a number. -/
def outputTotal (outputs : List BRTxOutput) : Nat :=
  (outputs.map fun output => output.amount.toNat).sum

/- The total of some inputs as a number. -/
def inputTotal (inputs : List (BRTxInput Hash)) : Nat :=
  (inputs.map fun input => input.amount.toNat).sum

theorem toNat_totalAmount
    {outputs : List BRTxOutput}
    (hTotal : outputTotal outputs < 2 ^ 64) :
    (totalAmount outputs).toNat = outputTotal outputs := by
  have hFold :
      ∀ (outputs : List BRTxOutput) (amount : UInt64),
        amount.toNat + outputTotal outputs < 2 ^ 64 →
          (outputs.foldl
              (fun amount output => amount + output.amount)
              amount).toNat =
            amount.toNat + outputTotal outputs := by
    intro outputs
    induction outputs with
    | nil => simp [outputTotal]
    | cons output outputs ih =>
        intro amount hSum
        simp only [outputTotal, List.map_cons,
          List.sum_cons] at hSum ih ⊢
        have hNext :
            (amount + output.amount).toNat =
              amount.toNat + output.amount.toNat := by
          rw [UInt64.toNat_add]
          exact Nat.mod_eq_of_lt (by omega)
        rw [List.foldl_cons, ih _ (by rw [hNext]; omega),
          hNext]
        omega
  have hZero : (0 : UInt64).toNat = 0 := rfl
  rw [totalAmount, hFold outputs 0 (by omega), hZero,
    Nat.zero_add]

variable [DecidableEq Hash]

/- The total of the wallet's coins as a number. -/
def coinTotal
    (wallet : BRWallet Hash Address)
    (utxos : List (BRUTXO Hash)) : Nat :=
  outputTotal
    (utxos.filterMap (spentOutput wallet.allTx))

------------------------------------------------------------
-- The Law
------------------------------------------------------------

/-
  The inputs of a transaction are distinct coins of the wallet
  with their recorded amounts, and what the outputs leave of
  them is at least the fee for the transaction's size.
-/
structure FeeLaw
    (wallet : BRWallet Hash Address)
    (tx : BRTransaction Hash) : Prop where
  distinct : (tx.inputs.map BRTxInput.utxo).Nodup
  coins :
    ∀ input ∈ tx.inputs,
      input.utxo ∈ wallet.utxos ∧
        ∃ output,
          spentOutput wallet.allTx input.utxo =
              some output ∧
            input.amount = output.amount
  fee :
    ∃ fee,
      inputTotal tx.inputs = outputTotal tx.outputs + fee ∧
        (wallet.feeForSize tx.size).toNat ≤ fee

/- The largest size whose fee the code asks for. -/
def sizeBound
    [Zero Hash]
    (_ : BRWallet Hash Address)
    (outputs : List BRTxOutput) : Nat :=
  max TX_MAX_SIZE
    ((unfunded outputs : BRTransaction Hash).size +
      TX_OUTPUT_SIZE)

/-
  No sum of amounts and fees exceeds 64 bits: neither the
  coins nor the outputs come close to it.
-/
structure NoWrap
    [Zero Hash]
    (wallet : BRWallet Hash Address)
    (outputs : List BRTxOutput) : Prop where
  size :
    SizeFits wallet.feePerKb.toNat (wallet.sizeBound outputs)
  total :
    max (outputTotal outputs)
          (wallet.coinTotal wallet.utxos) +
        feeNat wallet.feePerKb.toNat
          (wallet.sizeBound outputs) +
        99 + wallet.minOutputAmount.toNat <
      2 ^ 64

theorem outputTotal_append
    (first second : List BRTxOutput) :
    outputTotal (first ++ second) =
      outputTotal first + outputTotal second := by
  simp [outputTotal]

theorem coinTotal_le_of_initial
    (wallet : BRWallet Hash Address)
    {used utxos : List (BRUTXO Hash)}
    (hPrefix : used <+: utxos) :
    wallet.coinTotal used ≤ wallet.coinTotal utxos := by
  rcases hPrefix with ⟨rest, rfl⟩
  rw [coinTotal, coinTotal, List.filterMap_append,
    outputTotal_append]
  omega

------------------------------------------------------------
-- The Selection Loop
------------------------------------------------------------

variable [Zero Hash]

/- What the selection loop keeps while it goes over the coins. -/
structure Selecting
    (wallet : BRWallet Hash Address)
    (outputs : List BRTxOutput)
    (used : List (BRUTXO Hash))
    (selection : Selection Hash) : Prop where
  payload : selection.transaction.outputs = outputs
  inputs :
    (selection.transaction.inputs.map BRTxInput.utxo).Sublist
      used
  coins :
    ∀ input ∈ selection.transaction.inputs,
      ∃ output,
        spentOutput wallet.allTx input.utxo = some output ∧
          input.amount = output.amount
  balance :
    selection.balance.toNat =
      inputTotal selection.transaction.inputs
  total :
    inputTotal selection.transaction.inputs ≤
      wallet.coinTotal used
  fee_lower :
    feeNat wallet.feePerKb.toNat
        (selection.transaction.size + TX_OUTPUT_SIZE) ≤
      selection.feeAmount.toNat
  fee_upper :
    selection.feeAmount.toNat ≤
      feeNat wallet.feePerKb.toNat
          (wallet.sizeBound outputs) + 99
  size :
    selection.transaction.inputs = [] ∨
      selection.transaction.size + TX_OUTPUT_SIZE ≤
        TX_MAX_SIZE

/- The amount that a finished selection has to reach. -/
def required
    (outputs : List BRTxOutput)
    (selection : Selection Hash) : Nat :=
  outputTotal outputs + selection.feeAmount.toNat

variable {wallet : BRWallet Hash Address}
variable {outputs : List BRTxOutput}

theorem toNat_required
    {used : List (BRUTXO Hash)}
    {selection : Selection Hash}
    (hNoWrap : NoWrap wallet outputs)
    (hSelecting : Selecting wallet outputs used selection) :
    (totalAmount outputs + selection.feeAmount).toNat =
      required outputs selection := by
  have hTotal := hNoWrap.total
  have hFee := hSelecting.fee_upper
  rw [UInt64.toNat_add, toNat_totalAmount (by omega),
    required]
  exact Nat.mod_eq_of_lt (by omega)

/- The rounded fee is the fee and less than 100 more. -/
theorem roundedFee_bounds
    (hNoWrap : NoWrap wallet outputs)
    {size : Nat}
    (hSize : size + TX_OUTPUT_SIZE ≤ wallet.sizeBound outputs) :
    feeNat wallet.feePerKb.toNat (size + TX_OUTPUT_SIZE) ≤
        (wallet.roundedFee (totalAmount outputs)
          size).toNat ∧
      (wallet.roundedFee (totalAmount outputs)
          size).toNat ≤
        feeNat wallet.feePerKb.toNat
            (wallet.sizeBound outputs) + 99 := by
  have hTotal := hNoWrap.total
  have hMono := feeNat_mono wallet.feePerKb.toNat hSize
  have hFee :=
    toNat_feeForSize
      (hNoWrap.size.mono hSize)
  unfold roundedFee
  simp only
  split_ifs
  · have hRest :
        ((wallet.balance -
          (totalAmount outputs +
            wallet.feeForSize (size + TX_OUTPUT_SIZE))) %
              100).toNat < 100 := by
      rw [UInt64.toNat_mod]
      exact Nat.mod_lt _ (by decide)
    rw [UInt64.toNat_add, hFee,
      Nat.mod_eq_of_lt (by omega)]
    omega
  · rw [hFee]
    omega

omit [DecidableEq Hash] [Zero Hash] in
theorem foldl_addOutput
    (outputs : List BRTxOutput)
    (tx : BRTransaction Hash) :
    outputs.foldl BRTransaction.addOutput tx =
      { tx with outputs := tx.outputs ++ outputs } := by
  induction outputs generalizing tx with
  | nil => simp
  | cons output outputs ih =>
      rw [List.foldl_cons, ih]
      simp [BRTransaction.addOutput]

omit [DecidableEq Hash] in
@[simp]
theorem unfunded_inputs
    (outputs : List BRTxOutput) :
    (unfunded outputs : BRTransaction Hash).inputs = [] := by
  rw [unfunded, foldl_addOutput]
  rfl

omit [DecidableEq Hash] in
@[simp]
theorem unfunded_outputs
    (outputs : List BRTxOutput) :
    (unfunded outputs : BRTransaction Hash).outputs =
      outputs := by
  rw [unfunded, foldl_addOutput]
  rfl

/- The selection before the first coin. -/
theorem selecting_start
    (hNoWrap : NoWrap wallet outputs) :
    Selecting wallet outputs []
      { transaction := unfunded outputs
        balance := 0
        feeAmount :=
          wallet.feeForSize
            ((unfunded outputs : BRTransaction Hash).size +
              TX_OUTPUT_SIZE) } := by
  have hSize :
      (unfunded outputs : BRTransaction Hash).size +
          TX_OUTPUT_SIZE ≤
        wallet.sizeBound outputs :=
    le_max_right _ _
  have hFee :=
    toNat_feeForSize
      (hNoWrap.size.mono hSize)
  have hMono := feeNat_mono wallet.feePerKb.toNat hSize
  exact
    { payload := unfunded_outputs outputs
      inputs := by simp
      coins := by simp
      balance := by simp [inputTotal]
      total := by simp [inputTotal]
      fee_lower := by simp only [hFee, le_refl]
      fee_upper := by simp only [hFee]; omega
      size := Or.inl (unfunded_inputs outputs) }

/- The selection after one more coin that fits. -/
theorem Selecting.next
    (hNoWrap : NoWrap wallet outputs)
    {used : List (BRUTXO Hash)}
    {selection : Selection Hash}
    (hSelecting : Selecting wallet outputs used selection)
    {o : BRUTXO Hash}
    {output : BRTxOutput}
    (hCoin : spentOutput wallet.allTx o = some output)
    (hUsed : used ++ [o] <+: wallet.utxos)
    {transaction : BRTransaction Hash}
    (hTransaction :
      transaction =
        selection.transaction.addInput
          { txHash := o.hash
            index := o.n
            amount := output.amount
            script := output.script
            signature := none
            sequence := TXIN_SEQUENCE })
    (hFits :
      transaction.size + TX_OUTPUT_SIZE ≤ TX_MAX_SIZE) :
    Selecting wallet outputs (used ++ [o])
      { transaction := transaction
        balance := selection.balance + output.amount
        feeAmount :=
          wallet.roundedFee (totalAmount outputs)
            transaction.size } := by
  have hInputs :
      inputTotal transaction.inputs =
        inputTotal selection.transaction.inputs +
          output.amount.toNat := by
    rw [hTransaction]
    simp [BRTransaction.addInput, inputTotal]
  have hCoinTotal :
      wallet.coinTotal (used ++ [o]) =
        wallet.coinTotal used + output.amount.toNat := by
    rw [coinTotal, List.filterMap_append, outputTotal_append]
    simp [hCoin, outputTotal, coinTotal]
  have hUsedTotal := coinTotal_le_of_initial wallet hUsed
  have hTotal := hNoWrap.total
  have hOld := hSelecting.total
  have hBalance := hSelecting.balance
  have hBounds :=
    roundedFee_bounds hNoWrap
      (hFits.trans (le_max_left _ _))
  exact
    { payload := by
        rw [hTransaction]
        exact hSelecting.payload
      inputs := by
        rw [hTransaction]
        simp only [BRTransaction.addInput, List.map_append]
        exact hSelecting.inputs.append (List.Sublist.refl _)
      coins := by
        intro input hInput
        rw [hTransaction, BRTransaction.addInput,
          List.mem_append, List.mem_singleton] at hInput
        rcases hInput with hInput | rfl
        · exact hSelecting.coins input hInput
        · exact ⟨output, hCoin, rfl⟩
      balance := by
        rw [UInt64.toNat_add, hInputs, hBalance]
        exact Nat.mod_eq_of_lt (by omega)
      total := by
        simp only [hInputs, hCoinTotal]
        omega
      fee_lower := hBounds.1
      fee_upper := hBounds.2
      size := Or.inr hFits }

/- A coin without an output is skipped. -/
theorem Selecting.skip
    {used : List (BRUTXO Hash)}
    {selection : Selection Hash}
    (hSelecting : Selecting wallet outputs used selection)
    (o : BRUTXO Hash) :
    Selecting wallet outputs (used ++ [o]) selection :=
  { hSelecting with
    inputs :=
      hSelecting.inputs.trans (List.sublist_append_left _ _)
    total :=
      hSelecting.total.trans
        (coinTotal_le_of_initial wallet
          (List.prefix_append _ _)) }

/- A selection that does not stop the loop falls short. -/
theorem below_of_not_done
    (hNoWrap : NoWrap wallet outputs)
    {used : List (BRUTXO Hash)}
    {selection : Selection Hash}
    (hSelecting : Selecting wallet outputs used selection)
    (hGoOn :
      ¬ (selection.balance =
            totalAmount outputs + selection.feeAmount ∨
          totalAmount outputs + selection.feeAmount +
              wallet.minOutputAmount ≤
            selection.balance)) :
    selection.balance.toNat <
      required outputs selection +
        wallet.minOutputAmount.toNat := by
  have hRequired := toNat_required hNoWrap hSelecting
  have hTotal := hNoWrap.total
  have hFee := hSelecting.fee_upper
  have hSum :
      (totalAmount outputs + selection.feeAmount +
          wallet.minOutputAmount).toNat =
        required outputs selection +
          wallet.minOutputAmount.toNat := by
    rw [UInt64.toNat_add, hRequired]
    unfold required
    exact Nat.mod_eq_of_lt (by omega)
  have hNotEnough := (not_or.mp hGoOn).2
  rw [UInt64.le_iff_toNat_le, hSum] at hNotEnough
  omega

/- How the selection loop ends. -/
theorem selectInputs_spec
    (hNoWrap : NoWrap wallet outputs)
    {used rest : List (BRUTXO Hash)}
    {selection : Selection Hash}
    (hSelecting : Selecting wallet outputs used selection)
    (hBelow :
      selection.balance.toNat <
        required outputs selection +
          wallet.minOutputAmount.toNat)
    (hUtxos : used ++ rest <+: wallet.utxos) :
    ∃ last final,
      last <+: wallet.utxos ∧
        Selecting wallet outputs last final ∧
        (wallet.selectInputs (totalAmount outputs)
              wallet.minOutputAmount rest selection =
            .done final ∨
          (wallet.selectInputs (totalAmount outputs)
                wallet.minOutputAmount rest selection =
              .tooLarge final ∧
            final.balance.toNat <
              required outputs final +
                wallet.minOutputAmount.toNat)) := by
  induction rest generalizing used selection with
  | nil =>
      rw [List.append_nil] at hUtxos
      exact ⟨used, selection, hUtxos, hSelecting,
        Or.inl rfl⟩
  | cons o rest ih =>
      have hUsed : used ++ [o] <+: wallet.utxos :=
        List.IsPrefix.trans ⟨rest, by simp⟩ hUtxos
      have hRest : used ++ [o] ++ rest <+: wallet.utxos := by
        simpa using hUtxos
      cases hCoin : spentOutput wallet.allTx o with
      | none =>
          simp only [selectInputs, hCoin]
          exact ih (hSelecting.skip o) hBelow hRest
      | some output =>
          simp only [selectInputs, hCoin]
          split_ifs with hLarge hStop
          · exact
              ⟨used, selection,
                List.IsPrefix.trans
                  (List.prefix_append _ _) hUtxos,
                hSelecting, Or.inr ⟨rfl, hBelow⟩⟩
          · have hNext :=
              hSelecting.next hNoWrap hCoin hUsed rfl
                (Nat.le_of_not_lt hLarge)
            exact ⟨_, _, hUsed, hNext, Or.inl rfl⟩
          · have hNext :=
              hSelecting.next hNoWrap hCoin hUsed rfl
                (Nat.le_of_not_lt hLarge)
            exact
              ih hNext
                (below_of_not_done hNoWrap hNext hStop) hRest

theorem select_spec
    (hNoWrap : NoWrap wallet outputs) :
    ∃ last final,
      last <+: wallet.utxos ∧
        Selecting wallet outputs last final ∧
        (wallet.select outputs = .done final ∨
          (wallet.select outputs = .tooLarge final ∧
            final.balance.toNat <
              required outputs final +
                wallet.minOutputAmount.toNat)) := by
  have hZero : (0 : UInt64).toNat = 0 := rfl
  have hMinimum := minOutputAmount_pos wallet
  exact
    selectInputs_spec hNoWrap (selecting_start hNoWrap)
      (by rw [hZero]; omega)
      (by rw [List.nil_append])

------------------------------------------------------------
-- Smaller Payments
------------------------------------------------------------

theorem varIntSize_mono
    {i j : Nat}
    (hLe : i ≤ j) :
    varIntSize i ≤ varIntSize j := by
  unfold varIntSize
  split_ifs <;> omega

omit [DecidableEq Hash] in
theorem sizeBound_append
    (wallet : BRWallet Hash Address)
    (outputs rest : List BRTxOutput) :
    wallet.sizeBound outputs ≤
      wallet.sizeBound (outputs ++ rest) := by
  have hCount :=
    varIntSize_mono
      (Nat.le_add_right outputs.length rest.length)
  unfold sizeBound
  simp only [BRTransaction.size, unfunded_inputs,
    unfunded_outputs, List.length_append, List.map_append,
    List.sum_append]
  omega

omit [DecidableEq Hash] in
/- A payment of the same size has the same bound. -/
theorem sizeBound_amount
    (wallet : BRWallet Hash Address)
    (outputs : List BRTxOutput)
    (output : BRTxOutput)
    (amount : UInt64) :
    wallet.sizeBound
        (outputs ++ [{ output with amount := amount }]) =
      wallet.sizeBound (outputs ++ [output]) := by
  simp only [sizeBound, BRTransaction.size, unfunded_inputs,
    unfunded_outputs, List.length_append, List.map_append,
    List.map_cons, List.map_nil, BRTransaction.outputSize]
  rfl

theorem NoWrap.of_le
    (hNoWrap : NoWrap wallet outputs)
    {smaller : List BRTxOutput}
    (hSize :
      wallet.sizeBound smaller ≤ wallet.sizeBound outputs)
    (hTotal :
      outputTotal smaller ≤
        max (outputTotal outputs)
          (wallet.coinTotal wallet.utxos)) :
    NoWrap wallet smaller where
  size := hNoWrap.size.mono hSize
  total := by
    have hBound := hNoWrap.total
    have hFee := feeNat_mono wallet.feePerKb.toNat hSize
    omega

/- A reduced amount, which never wraps. -/
theorem toNat_reduced
    (amount required balance : UInt64)
    (hLow :
      required.toNat ≤ amount.toNat + balance.toNat)
    (hHigh :
      amount.toNat + balance.toNat <
        required.toNat + 2 ^ 64) :
    (amount - (required - balance)).toNat =
      amount.toNat + balance.toNat - required.toNat := by
  have hRequired := required.toNat_lt
  have hBalance := balance.toNat_lt
  have hAmount := amount.toNat_lt
  rw [UInt64.toNat_sub, UInt64.toNat_sub]
  omega

/- The smaller payment does not wrap either. -/
theorem noWrap_smaller
    (hNoWrap : NoWrap wallet outputs)
    {used : List (BRUTXO Hash)}
    (hUsed : used <+: wallet.utxos)
    {selection : Selection Hash}
    (hSelecting : Selecting wallet outputs used selection)
    (hBelow :
      selection.balance.toNat <
        required outputs selection +
          wallet.minOutputAmount.toNat)
    {smaller : List BRTxOutput}
    (hSmaller :
      wallet.smallerOutputs outputs selection =
        some smaller) :
    NoWrap wallet smaller := by
  have hRequired := toNat_required hNoWrap hSelecting
  have hTotal := hNoWrap.total
  have hFee := hSelecting.fee_upper
  have hCoins := hSelecting.total
  have hUsedTotal := coinTotal_le_of_initial wallet hUsed
  have hBalance := hSelecting.balance
  rw [smallerOutputs, Option.map_eq_some_iff] at hSmaller
  rcases hSmaller with ⟨last, hLast, rfl⟩
  rcases List.getLast?_eq_some_iff.mp hLast with
    ⟨before, rfl⟩
  have hSplit :
      outputTotal (before ++ [last]) =
        outputTotal before + last.amount.toNat := by
    simp [outputTotal]
  simp only [List.dropLast_concat]
  split_ifs with hReduce
  · -- the reduced payment is the balance less the fee
    have hMissing :
        (totalAmount (before ++ [last]) +
              selection.feeAmount + wallet.minOutputAmount -
            selection.balance).toNat =
          required (before ++ [last]) selection +
              wallet.minOutputAmount.toNat -
            selection.balance.toNat := by
      rw [UInt64.toNat_sub, UInt64.toNat_add, hRequired]
      unfold required at *
      omega
    rw [UInt64.lt_iff_toNat_lt, hMissing] at hReduce
    have hReduced :=
      toNat_reduced last.amount
        (totalAmount (before ++ [last]) +
          selection.feeAmount)
        selection.balance
        (by rw [hRequired]; omega)
        (by rw [hRequired]; unfold required; omega)
    apply hNoWrap.of_le
    · rw [sizeBound_amount]
    · rw [outputTotal_append]
      simp only [outputTotal, List.map_cons, List.map_nil,
        List.sum_cons, List.sum_nil, hReduced, hRequired]
        at *
      unfold required outputTotal at *
      omega
  · apply hNoWrap.of_le
    · exact sizeBound_append wallet before [last]
    · omega

------------------------------------------------------------
-- Calls
------------------------------------------------------------

/-
  The call that makes the transaction of a payment, and its
  selection: the payment itself or a smaller one.
-/
inductive Calls
    (wallet : BRWallet Hash Address) :
    List BRTxOutput → List BRTxOutput → Selection Hash →
      Prop where
  | here
      {outputs : List BRTxOutput}
      {selection : Selection Hash}
      (hSelect : wallet.select outputs = .done selection) :
      Calls wallet outputs outputs selection
  | smaller
      {outputs smaller final : List BRTxOutput}
      {selection last : Selection Hash}
      (hSelect : wallet.select outputs = .tooLarge selection)
      (hSmaller :
        wallet.smallerOutputs outputs selection =
          some smaller)
      (hCalls : Calls wallet smaller final last) :
      Calls wallet outputs final last

/- There is one such call. -/
theorem Calls.unique
    {final other : List BRTxOutput}
    {selection last : Selection Hash}
    (hFirst : Calls wallet outputs final selection)
    (hSecond : Calls wallet outputs other last) :
    final = other ∧ selection = last := by
  induction hFirst with
  | here hSelect =>
      cases hSecond with
      | here hOther =>
          rw [hSelect] at hOther
          cases hOther
          exact ⟨rfl, rfl⟩
      | smaller hOther =>
          rw [hSelect] at hOther
          cases hOther
  | smaller hSelect hSmaller hCalls ih =>
      cases hSecond with
      | here hOther =>
          rw [hSelect] at hOther
          cases hOther
      | smaller hOther hNext hRest =>
          rw [hSelect] at hOther
          cases hOther
          rw [hSmaller] at hNext
          cases hNext
          exact ih hRest

/- A transaction comes out of its call's selection. -/
theorem createTxForOutputs_calls
    {rand : Nat → Nat}
    {change : Option (List.Vector UInt8 20)}
    {bound : Nat}
    {tx : BRTransaction Hash}
    (hNoWrap : NoWrap wallet outputs)
    (hCreate :
      wallet.createTxForOutputs rand change bound outputs =
        some (some tx)) :
    ∃ final used selection,
      Calls wallet outputs final selection ∧
        NoWrap wallet final ∧ used <+: wallet.utxos ∧
        Selecting wallet final used selection ∧
        wallet.finish rand change final selection =
          some tx := by
  induction bound generalizing outputs with
  | zero => cases hCreate
  | succ bound ih =>
      rcases select_spec hNoWrap with
        ⟨used, selection, hUsed, hSelecting,
          hSelect | ⟨hSelect, hBelow⟩⟩
      · rw [createTxForOutputs, hSelect] at hCreate
        exact
          ⟨outputs, used, selection, .here hSelect, hNoWrap,
            hUsed, hSelecting, Option.some.inj hCreate⟩
      · rw [createTxForOutputs, hSelect] at hCreate
        simp only at hCreate
        split_ifs at hCreate with hFunds
        · cases hCreate
        · simp only [Option.bind_eq_bind,
            Option.bind_eq_some_iff] at hCreate
          rcases hCreate with ⟨smaller, hSmaller, hRest⟩
          rcases ih
              (noWrap_smaller hNoWrap hUsed hSelecting
                hBelow hSmaller) hRest with
            ⟨final, usedLast, last, hCalls, hFinal⟩
          exact
            ⟨final, usedLast, last,
              .smaller hSelect hSmaller hCalls, hFinal⟩

------------------------------------------------------------
-- Change
------------------------------------------------------------

/-
  When change becomes the 253rd output, the count of outputs
  needs two more bytes, and the settled fee covers these too.
-/
def CountCovered
    (wallet : BRWallet Hash Address)
    (change : Option (List.Vector UInt8 20))
    (outputs : List BRTxOutput) : Prop :=
  ∀ final selection, Calls wallet outputs final selection →
    final.length = 252 →
      wallet.minOutputAmount <
          changeAmount final selection →
        wallet.feeForSize
            (selection.transaction.size +
              BRTransaction.outputSize
                (changeOutput change final selection) + 2) ≤
          selection.feeAmount

omit [DecidableEq Hash] [Zero Hash] in
theorem outputSize_change_le
    (change : Option (List.Vector UInt8 20))
    (outputs : List BRTxOutput)
    (selection : Selection Hash) :
    BRTransaction.outputSize
        (changeOutput change outputs selection) ≤
      TX_OUTPUT_SIZE := by
  cases change with
  | none =>
      have hLength : (changeScript none).length = 0 := rfl
      simp only [BRTransaction.outputSize, changeOutput,
        hLength]
      decide
  | some hash =>
      have hLength :
          (changeScript (some hash)).length = 25 := by
        simp [changeScript]
      simp only [BRTransaction.outputSize, changeOutput,
        hLength]
      decide

omit [DecidableEq Hash] [Zero Hash] in
/- Another output adds its bytes and those of the count. -/
theorem size_addOutput
    (tx : BRTransaction Hash)
    (output : BRTxOutput) :
    (tx.addOutput output).size + varIntSize tx.outputs.length =
      tx.size + BRTransaction.outputSize output +
        varIntSize (tx.outputs.length + 1) := by
  simp only [BRTransaction.size, BRTransaction.addOutput,
    List.length_append, List.length_singleton,
    List.map_append, List.map_singleton, List.sum_append,
    List.sum_singleton]
  omega

omit [DecidableEq Hash] [Zero Hash] in
/- Each output needs nine bytes at least. -/
theorem length_outputs_le
    (tx : BRTransaction Hash) :
    9 * tx.outputs.length ≤ tx.size := by
  have hSum :
      ∀ outputs : List BRTxOutput,
        9 * outputs.length ≤
          (outputs.map BRTransaction.outputSize).sum := by
    intro outputs
    induction outputs with
    | nil => simp
    | cons output outputs ih =>
        have hPositive :
            1 ≤ varIntSize output.script.length := by
          unfold varIntSize
          split_ifs <;> omega
        simp only [List.length_cons, List.map_cons,
          List.sum_cons, BRTransaction.outputSize]
        omega
  have hOutputs := hSum tx.outputs
  unfold BRTransaction.size
  omega

------------------------------------------------------------
-- The Law and Its Condition
------------------------------------------------------------

/- No coin is spent twice. -/
theorem Selecting.distinct
    (hUtxos : wallet.utxos.Nodup)
    {used : List (BRUTXO Hash)}
    (hUsed : used <+: wallet.utxos)
    {selection : Selection Hash}
    (hSelecting : Selecting wallet outputs used selection) :
    (selection.transaction.inputs.map
      BRTxInput.utxo).Nodup :=
  hUtxos.sublist (hSelecting.inputs.trans hUsed.sublist)

/- Only coins of the wallet are spent. -/
theorem Selecting.spends
    {used : List (BRUTXO Hash)}
    (hUsed : used <+: wallet.utxos)
    {selection : Selection Hash}
    (hSelecting : Selecting wallet outputs used selection) :
    ∀ input ∈ selection.transaction.inputs,
      input.utxo ∈ wallet.utxos ∧
        ∃ output,
          spentOutput wallet.allTx input.utxo =
              some output ∧
            input.amount = output.amount := by
  intro input hInput
  have hMem :
      input.utxo ∈
        selection.transaction.inputs.map BRTxInput.utxo :=
    List.mem_map_of_mem hInput
  exact
    ⟨(hSelecting.inputs.trans hUsed.sublist).subset hMem,
      hSelecting.coins input hInput⟩

/- A funded selection has an input, so it is not too large. -/
theorem Selecting.size_le
    {used : List (BRUTXO Hash)}
    {selection : Selection Hash}
    (hSelecting : Selecting wallet outputs used selection)
    (hFunded :
      required outputs selection ≤ selection.balance.toNat) :
    selection.transaction.size + TX_OUTPUT_SIZE ≤
      TX_MAX_SIZE := by
  rcases hSelecting.size with hEmpty | hSize
  · have hBalance := hSelecting.balance
    have hFee := hSelecting.fee_lower
    have hLower :=
      le_feeNat wallet.feePerKb.toNat
        (selection.transaction.size + TX_OUTPUT_SIZE)
    simp only [hEmpty, inputTotal, List.map_nil,
      List.sum_nil] at hBalance
    unfold required at hFunded
    unfold TX_OUTPUT_SIZE at *
    omega
  · exact hSize

/- With change as another output. -/
theorem feeLaw_change_iff
    {rand : Nat → Nat}
    {change : Option (List.Vector UInt8 20)}
    (hUtxos : wallet.utxos.Nodup)
    (hNoWrap : NoWrap wallet outputs)
    {used : List (BRUTXO Hash)}
    (hUsed : used <+: wallet.utxos)
    {selection : Selection Hash}
    (hSelecting : Selecting wallet outputs used selection)
    (hFunded :
      required outputs selection ≤ selection.balance.toNat) :
    FeeLaw wallet
        ((selection.transaction.addOutput
          (changeOutput change outputs
            selection)).shuffleOutputs rand) ↔
      (outputs.length = 252 →
        wallet.feeForSize
            (selection.transaction.size +
              BRTransaction.outputSize
                (changeOutput change outputs selection) +
              2) ≤
          selection.feeAmount) := by
  have hRequired := toNat_required hNoWrap hSelecting
  have hBalance := hSelecting.balance
  have hSize := hSelecting.size_le hFunded
  have hOutputSize :=
    outputSize_change_le change outputs selection
  have hGrowth :=
    size_addOutput selection.transaction
      (changeOutput change outputs selection)
  have hCount := length_outputs_le selection.transaction
  rw [hSelecting.payload] at hGrowth hCount
  -- the fee is the settled one
  have hAmount :
      (changeAmount outputs selection).toNat =
        selection.balance.toNat -
          required outputs selection := by
    have hLe := hFunded
    rw [← hRequired, ← UInt64.le_iff_toNat_le] at hLe
    rw [changeAmount, UInt64.toNat_sub_of_le _ _ hLe,
      hRequired]
  have hTotal :
      outputTotal
          ((selection.transaction.addOutput
            (changeOutput change outputs
              selection)).shuffleOutputs rand).outputs =
        outputTotal outputs +
          (changeAmount outputs selection).toNat := by
    have hPerm :=
      BRTransaction.shuffleOutputs_perm rand
        (selection.transaction.addOutput
          (changeOutput change outputs selection))
    rw [outputTotal, (hPerm.map _).sum_eq, ← outputTotal]
    simp only [BRTransaction.addOutput, hSelecting.payload,
      outputTotal_append]
    rfl
  have hSettled :
      FeeLaw wallet
          ((selection.transaction.addOutput
            (changeOutput change outputs
              selection)).shuffleOutputs rand) ↔
        (wallet.feeForSize
            (selection.transaction.addOutput
              (changeOutput change outputs
                selection)).size).toNat ≤
          selection.feeAmount.toNat := by
    constructor
    · intro hLaw
      rcases hLaw.fee with ⟨fee, hSum, hFee⟩
      rw [BRTransaction.size_shuffleOutputs] at hFee
      change inputTotal selection.transaction.inputs = _
        at hSum
      rw [hTotal, hAmount] at hSum
      unfold required at *
      omega
    · intro hFee
      refine ⟨hSelecting.distinct hUtxos hUsed,
        hSelecting.spends hUsed,
        selection.feeAmount.toNat, ?_, ?_⟩
      · change inputTotal selection.transaction.inputs = _
        rw [hTotal, hAmount]
        unfold required at *
        omega
      · rw [BRTransaction.size_shuffleOutputs]
        exact hFee
  rw [hSettled]
  by_cases hFull : outputs.length = 252
  · rw [hFull] at hGrowth
    have hSame :
        (selection.transaction.addOutput
            (changeOutput change outputs selection)).size =
          selection.transaction.size +
            BRTransaction.outputSize
              (changeOutput change outputs selection) +
            2 := by
      have hShort : varIntSize 252 = 1 := rfl
      have hLong : varIntSize (252 + 1) = 3 := rfl
      omega
    rw [hSame, ← UInt64.le_iff_toNat_le]
    exact ⟨fun hFee _ => hFee, fun hFee => hFee hFull⟩
  · -- the count has the same size with one more output
    have hVarInt :
        varIntSize (outputs.length + 1) =
          varIntSize outputs.length := by
      unfold TX_MAX_SIZE at hSize
      unfold varIntSize
      split_ifs <;> omega
    have hLe :
        (selection.transaction.addOutput
            (changeOutput change outputs selection)).size ≤
          selection.transaction.size + TX_OUTPUT_SIZE := by
      omega
    have hFee :=
      toNat_feeForSize
        (hNoWrap.size.mono
          (hLe.trans (hSize.trans (le_max_left _ _))))
    have hMono := feeNat_mono wallet.feePerKb.toNat hLe
    have hLower := hSelecting.fee_lower
    rw [hFee]
    exact ⟨fun _ hCount => absurd hCount hFull,
      fun _ => hMono.trans hLower⟩

/- Without change the fee is never too low. -/
theorem feeLaw_no_change
    (hUtxos : wallet.utxos.Nodup)
    (hNoWrap : NoWrap wallet outputs)
    {used : List (BRUTXO Hash)}
    (hUsed : used <+: wallet.utxos)
    {selection : Selection Hash}
    (hSelecting : Selecting wallet outputs used selection)
    (hFunded :
      required outputs selection ≤ selection.balance.toNat) :
    FeeLaw wallet selection.transaction := by
  have hBalance := hSelecting.balance
  have hSize := hSelecting.size_le hFunded
  have hLower := hSelecting.fee_lower
  have hLe :
      selection.transaction.size ≤
        selection.transaction.size + TX_OUTPUT_SIZE :=
    Nat.le_add_right _ _
  have hFee :=
    toNat_feeForSize
      (hNoWrap.size.mono
        (hLe.trans (hSize.trans (le_max_left _ _))))
  have hMono := feeNat_mono wallet.feePerKb.toNat hLe
  refine ⟨hSelecting.distinct hUtxos hUsed,
    hSelecting.spends hUsed,
    selection.balance.toNat - outputTotal outputs, ?_, ?_⟩
  · rw [hSelecting.payload]
    unfold required at hFunded
    omega
  · rw [hFee]
    unfold required at hFunded
    omega

/- A wallet whose first address is paid by the script `1`. -/
def smallKeys : WalletKeys Nat where
  addressOf := fun script => if script = [1] then some 0 else none
  derive := fun internal i =>
    some (if internal then 2 * i + 1 else 2 * i)
  moved := fun _ _ _ => false

/- The transaction that funds it. -/
def funding : BRTransaction Nat where
  txHash := 1
  version := 1
  inputs :=
    [{ txHash := 7
       index := 0
       amount := 0
       script := []
       signature := some [0]
       sequence := TXIN_SEQUENCE }]
  outputs := [{ amount := 290000, script := [1] }]
  lockTime := 0
  blockHeight := TX_UNCONFIRMED
  timestamp := 0

def fundedWallet : BRWallet Nat Nat :=
  (BRWallet.new smallKeys [funding] 0).get
    (by decide +kernel)

/- The coin as an input. -/
def fundedInput : BRTxInput Nat where
  txHash := 1
  index := 0
  amount := 290000
  script := [1]
  signature := none
  sequence := TXIN_SEQUENCE

/- The address for change. -/
def changeAddress : Option (List.Vector UInt8 20) :=
  some (List.Vector.replicate 20 0)

/- A payment of 5000 with its change. -/
def smallPayment : BRTransaction Nat :=
  ((BRTransaction.new.addOutput
    { amount := 5000, script := [2] }).addInput
      fundedInput).addOutput
    { amount := 282900, script := changeScript changeAddress }

/- 252 outputs, whose scripts make a round size. -/
def manyOutputs : List BRTxOutput :=
  List.replicate 251 { amount := 1000, script := [2] } ++
    [{ amount := 1000, script := List.replicate 89 2 }]

/- The selection that pays them. -/
def manySelection : Selection Nat where
  transaction := (unfunded manyOutputs).addInput fundedInput
  balance := 290000
  feeAmount := 28000

/- The transaction with its change, before it is shuffled. -/
def manyTransaction : BRTransaction Nat :=
  manySelection.transaction.addOutput
    (changeOutput changeAddress manyOutputs manySelection)

end BRWallet

end PlusWallet
