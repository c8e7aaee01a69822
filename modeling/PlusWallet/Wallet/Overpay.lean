import PlusWallet.Wallet.Addresses
import PlusWallet.Wallet.FeeLaw

/-
  A created transaction pays the requested outputs or less,
  and change.  When it gets too large, the last output is
  reduced by what the coins fall short; the coins may cover
  the payment, though, and then the output grows.

  Main declarations:
    * `BRWallet.Tried`
    * `BRWallet.PaymentLaw`
    * `BRWallet.CoinsFallShort`
    * `BRWallet.paymentLaw_iff`
    * `BRWallet.overpaid_not_paymentLaw`
-/

namespace PlusWallet

variable {Hash Address : Type}
variable [DecidableEq Hash] [DecidableEq Address]

namespace BRWallet

------------------------------------------------------------
-- Coins That Fit
------------------------------------------------------------

/-
  The selection of all coins until the next one makes the
  transaction too large.
-/
def fill
    (wallet : BRWallet Hash Address)
    (amount : UInt64) :
    List (BRUTXO Hash) → Selection Hash → Selection Hash
  | [], selection => selection
  | o :: rest, selection =>
      match spentOutput wallet.allTx o with
      | none => fill wallet amount rest selection
      | some output =>
          let transaction :=
            selection.transaction.addInput
              { txHash := o.hash
                index := o.n
                amount := output.amount
                script := output.script
                signature := none
                sequence := TXIN_SEQUENCE }
          if TX_MAX_SIZE < transaction.size + TX_OUTPUT_SIZE
          then selection
          else
            fill wallet amount rest
              { transaction := transaction
                balance := selection.balance + output.amount
                feeAmount :=
                  wallet.roundedFee amount transaction.size }

omit [DecidableEq Address] in
/- A selection that gets too large has all coins that fit. -/
theorem fill_of_tooLarge
    {wallet : BRWallet Hash Address}
    {amount minAmount : UInt64}
    {utxos : List (BRUTXO Hash)}
    {selection final : Selection Hash}
    (hSelect :
      wallet.selectInputs amount minAmount utxos selection =
        .tooLarge final) :
    wallet.fill amount utxos selection = final := by
  induction utxos generalizing selection with
  | nil => cases hSelect
  | cons o rest ih =>
      unfold selectInputs at hSelect
      unfold fill
      cases hCoin : spentOutput wallet.allTx o with
      | none =>
          simp only [hCoin] at hSelect ⊢
          exact ih hSelect
      | some output =>
          simp only [hCoin] at hSelect ⊢
          split_ifs at hSelect ⊢ with hLarge hStop
          · cases hSelect
            rfl
          · exact ih hSelect

variable [Zero Hash]

/- The coins that fit into the transaction of a payment. -/
def fitting
    (wallet : BRWallet Hash Address)
    (outputs : List BRTxOutput) : Selection Hash :=
  wallet.fill (totalAmount outputs) wallet.utxos
    { transaction := unfunded outputs
      balance := 0
      feeAmount :=
        wallet.feeForSize
          ((unfunded outputs : BRTransaction Hash).size +
            TX_OUTPUT_SIZE) }

------------------------------------------------------------
-- Payments Tried
------------------------------------------------------------

/-
  The selection gets too large before the coins suffice, and
  the wallet holds enough for a smaller transaction.
-/
def TooLarge
    (wallet : BRWallet Hash Address)
    (outputs : List BRTxOutput)
    (selection : Selection Hash) : Prop :=
  wallet.select outputs = .tooLarge selection ∧
    ¬ wallet.balance <
        totalAmount outputs +
          wallet.feeForSize
            (10 + wallet.utxos.length * TX_INPUT_SIZE +
              (outputs.length + 1) * TX_OUTPUT_SIZE)

/- The payments that the recursion comes to. -/
inductive Tried
    (wallet : BRWallet Hash Address)
    (outputs : List BRTxOutput) :
    List BRTxOutput → Prop where
  | requested : Tried wallet outputs outputs
  | smaller
      {payment smaller : List BRTxOutput}
      {selection : Selection Hash}
      (hTried : Tried wallet outputs payment)
      (hLarge : TooLarge wallet payment selection)
      (hSmaller :
        wallet.smallerOutputs payment selection =
          some smaller) :
      Tried wallet outputs smaller

------------------------------------------------------------
-- The Law
------------------------------------------------------------

/-
  None of the subtractions by which the last output is reduced
  goes below zero.
-/
structure ExactReduction
    (wallet : BRWallet Hash Address)
    (payment : List BRTxOutput)
    (selection : Selection Hash)
    (last : BRTxOutput) : Prop where
  test :
    selection.balance ≤
      totalAmount payment + selection.feeAmount +
        wallet.minOutputAmount
  reduction :
    totalAmount payment + selection.feeAmount +
          wallet.minOutputAmount - selection.balance <
        last.amount →
      selection.balance ≤
          totalAmount payment + selection.feeAmount ∧
        totalAmount payment + selection.feeAmount -
            selection.balance ≤
          last.amount

/-
  Each output that is paid is the requested one in its place,
  with its amount or less.
-/
def PaysAtMost (requested paid : List BRTxOutput) : Prop :=
  ∀ (i : Nat) output, paid[i]? = some output →
    ∃ original, requested[i]? = some original ∧
      output.script = original.script ∧
        output.amount ≤ original.amount

/- The address that `BRWalletUnusedAddrs` gives for change. -/
def unusedChange
    (keys : WalletKeys Address)
    (hash160 : Address → List.Vector UInt8 20)
    (wallet : BRWallet Hash Address) :
    Option (List.Vector UInt8 20) := do
  let (addrs, _) ← wallet.unusedAddrs keys 1 true
  addrs.head?.map hash160

/- The output pays an address of the wallet's internal chain. -/
def PaysChange
    (derived : Bool → Nat → Address)
    (hash160 : Address → List.Vector UInt8 20)
    (output : BRTxOutput) : Prop :=
  ∃ j, output.script =
    changeScript (some (hash160 (derived true j)))

/-
  What the code promises for a payment: nothing wraps below
  zero, and the transaction pays what is requested, or less
  when that is too large, and at most one change output.
-/
structure PaymentLaw
    (keys : WalletKeys Address)
    (derived : Bool → Nat → Address)
    (hash160 : Address → List.Vector UInt8 20)
    (wallet : BRWallet Hash Address)
    (outputs : List BRTxOutput) : Prop where
  exact :
    ∀ payment selection last,
      Tried wallet outputs payment →
        TooLarge wallet payment selection →
          payment.getLast? = some last →
            ExactReduction wallet payment selection last
  pays :
    ∀ rand bound tx,
      wallet.createTxForOutputs rand
          (unusedChange keys hash160 wallet) bound outputs =
        some (some tx) →
      ∃ paid change,
        tx.outputs.Perm (paid ++ change) ∧
          PaysAtMost outputs paid ∧
          (paid ≠ outputs →
            ∃ selection, TooLarge wallet outputs selection) ∧
          change.length ≤ 1 ∧
          ∀ output ∈ change,
            PaysChange derived hash160 output

/-
  Where a payment is too large and its last output is to be
  reduced, the coins that fit do not cover the payment.
-/
def CoinsFallShort
    (wallet : BRWallet Hash Address)
    (outputs : List BRTxOutput) : Prop :=
  ∀ payment last,
    Tried wallet outputs payment →
      (∃ selection, TooLarge wallet payment selection) →
        payment.getLast? = some last →
          required payment (wallet.fitting payment) +
                wallet.minOutputAmount.toNat <
              (wallet.fitting payment).balance.toNat +
                last.amount.toNat →
            (wallet.fitting payment).balance.toNat ≤
              required payment (wallet.fitting payment)

------------------------------------------------------------
-- One Reduction
------------------------------------------------------------

variable {wallet : BRWallet Hash Address}
variable {outputs payment : List BRTxOutput}
variable {selection : Selection Hash}

omit [DecidableEq Address] in
theorem fitting_of_tooLarge
    (hLarge : TooLarge wallet payment selection) :
    wallet.fitting payment = selection :=
  fill_of_tooLarge hLarge.1

omit [DecidableEq Address] in
/- What is known of a selection that gets too large. -/
theorem selecting_of_tooLarge
    (hNoWrap : NoWrap wallet payment)
    (hLarge : TooLarge wallet payment selection) :
    ∃ used,
      used <+: wallet.utxos ∧
        Selecting wallet payment used selection ∧
        selection.balance.toNat <
          required payment selection +
            wallet.minOutputAmount.toNat := by
  rcases select_spec hNoWrap with
    ⟨used, final, hUsed, hSelecting,
      hSelect | ⟨hSelect, hBelow⟩⟩
  · cases hLarge.1.symm.trans hSelect
  · cases hLarge.1.symm.trans hSelect
    exact ⟨used, hUsed, hSelecting, hBelow⟩

omit [DecidableEq Address] in
theorem noWrap_of_tried
    (hNoWrap : NoWrap wallet outputs)
    (hTried : Tried wallet outputs payment) :
    NoWrap wallet payment := by
  induction hTried with
  | requested => exact hNoWrap
  | smaller _ hLarge hSmaller ih =>
      rcases selecting_of_tooLarge ih hLarge with
        ⟨used, hUsed, hSelecting, hBelow⟩
      exact noWrap_smaller ih hUsed hSelecting hBelow hSmaller

omit [DecidableEq Address] in
/-
  A reduction is exact if the coins do not cover the payment
  where its last output is reduced.
-/
theorem exactReduction_iff
    (hNoWrap : NoWrap wallet payment)
    (hLarge : TooLarge wallet payment selection)
    (last : BRTxOutput) :
    ExactReduction wallet payment selection last ↔
      (required payment selection +
            wallet.minOutputAmount.toNat <
          selection.balance.toNat + last.amount.toNat →
        selection.balance.toNat ≤
          required payment selection) := by
  rcases selecting_of_tooLarge hNoWrap hLarge with
    ⟨used, hUsed, hSelecting, hBelow⟩
  have hRequired := toNat_required hNoWrap hSelecting
  have hTotal := hNoWrap.total
  have hFee := hSelecting.fee_upper
  have hSum :
      (totalAmount payment + selection.feeAmount +
          wallet.minOutputAmount).toNat =
        required payment selection +
          wallet.minOutputAmount.toNat := by
    rw [UInt64.toNat_add, hRequired]
    unfold required
    exact Nat.mod_eq_of_lt (by omega)
  have hTest :
      selection.balance ≤
        totalAmount payment + selection.feeAmount +
          wallet.minOutputAmount := by
    rw [UInt64.le_iff_toNat_le, hSum]
    exact hBelow.le
  have hMissing :
      totalAmount payment + selection.feeAmount +
            wallet.minOutputAmount - selection.balance <
          last.amount ↔
        required payment selection +
            wallet.minOutputAmount.toNat <
          selection.balance.toNat + last.amount.toNat := by
    rw [UInt64.lt_iff_toNat_lt,
      UInt64.toNat_sub_of_le _ _ hTest, hSum]
    omega
  have hCovered :
      selection.balance ≤
          totalAmount payment + selection.feeAmount ↔
        selection.balance.toNat ≤
          required payment selection := by
    rw [UInt64.le_iff_toNat_le, hRequired]
  constructor
  · intro hExact hReduce
    exact hCovered.mp
      (hExact.reduction (hMissing.mpr hReduce)).1
  · intro hShort
    refine ⟨hTest, ?_⟩
    intro hReduce
    have hBalance := hCovered.mpr (hShort (hMissing.mp hReduce))
    refine ⟨hBalance, ?_⟩
    have hAbove := hMissing.mp hReduce
    rw [UInt64.le_iff_toNat_le,
      UInt64.toNat_sub_of_le _ _ hBalance, hRequired]
    omega

------------------------------------------------------------
-- What Is Paid
------------------------------------------------------------

theorem PaysAtMost.refl (outputs : List BRTxOutput) :
    PaysAtMost outputs outputs :=
  fun _ output hOutput => ⟨output, hOutput, rfl, UInt64.le_refl _⟩

theorem PaysAtMost.trans
    {first second third : List BRTxOutput}
    (hFirst : PaysAtMost first second)
    (hSecond : PaysAtMost second third) :
    PaysAtMost first third := by
  intro i output hOutput
  rcases hSecond i output hOutput with
    ⟨middle, hMiddle, hScript, hAmount⟩
  rcases hFirst i middle hMiddle with
    ⟨original, hOriginal, hSame, hLess⟩
  exact ⟨original, hOriginal, hScript.trans hSame,
    UInt64.le_trans hAmount hLess⟩

omit [DecidableEq Hash] [DecidableEq Address] [Zero Hash] in
/- The smaller payment, when its reduction is exact. -/
theorem paysAtMost_smaller
    (hExact :
      ∀ last, payment.getLast? = some last →
        ExactReduction wallet payment selection last)
    {smaller : List BRTxOutput}
    (hSmaller :
      wallet.smallerOutputs payment selection =
        some smaller) :
    PaysAtMost payment smaller := by
  rw [smallerOutputs, Option.map_eq_some_iff] at hSmaller
  rcases hSmaller with ⟨last, hLast, rfl⟩
  have hReduction := (hExact last hLast).reduction
  rcases List.getLast?_eq_some_iff.mp hLast with
    ⟨before, rfl⟩
  simp only [List.dropLast_concat] at hReduction ⊢
  have hBefore :
      ∀ (i : Nat) output, before[i]? = some output →
        (before ++ [last])[i]? = some output := by
    intro i output hOutput
    exact List.getElem?_append_left
      (List.getElem?_eq_some_iff.mp hOutput).1 ▸ hOutput
  split_ifs with hReduce
  · rcases hReduction hReduce with ⟨-, hLess⟩
    intro i output hOutput
    rcases Nat.lt_or_ge i before.length with hi | hi
    · rw [List.getElem?_append_left hi] at hOutput
      exact ⟨output, hBefore i output hOutput, rfl,
        UInt64.le_refl _⟩
    · rw [List.getElem?_append_right hi] at hOutput
      have hIndex := (List.getElem?_eq_some_iff.mp hOutput).1
      rw [List.length_singleton, Nat.lt_one_iff] at hIndex
      rw [hIndex, List.getElem?_cons_zero] at hOutput
      cases hOutput
      refine ⟨last, ?_, rfl, ?_⟩
      · rw [List.getElem?_append_right hi, hIndex]
        rfl
      · rw [UInt64.le_iff_toNat_le,
          UInt64.toNat_sub_of_le _ _ hLess]
        omega
  · intro i output hOutput
    exact ⟨output, hBefore i output hOutput, rfl, UInt64.le_refl _⟩

omit [DecidableEq Address] in
/- What a smaller payment leads to, the payment leads to. -/
theorem Tried.of_smaller
    {smaller final : List BRTxOutput}
    (hLarge : TooLarge wallet payment selection)
    (hSmaller :
      wallet.smallerOutputs payment selection = some smaller)
    (hTried : Tried wallet smaller final) :
    Tried wallet payment final := by
  induction hTried with
  | requested => exact .smaller .requested hLarge hSmaller
  | smaller _ hNext hRest ih => exact .smaller ih hNext hRest

omit [DecidableEq Address] in
/- The payment that the transaction is made for. -/
theorem paid_of_exact
    {rand : Nat → Nat}
    {change : Option (List.Vector UInt8 20)}
    {bound : Nat}
    {tx : BRTransaction Hash}
    (hExact :
      ∀ payment selection last,
        Tried wallet outputs payment →
          TooLarge wallet payment selection →
            payment.getLast? = some last →
              ExactReduction wallet payment selection last)
    (hCreate :
      wallet.createTxForOutputs rand change bound outputs =
        some (some tx)) :
    ∃ paid selection,
      Tried wallet outputs paid ∧
        PaysAtMost outputs paid ∧
        (paid ≠ outputs →
          ∃ selection, TooLarge wallet outputs selection) ∧
        wallet.select paid = .done selection ∧
        wallet.finish rand change paid selection = some tx := by
  induction bound generalizing outputs with
  | zero => cases hCreate
  | succ bound ih =>
      unfold createTxForOutputs at hCreate
      cases hSelect : wallet.select outputs with
      | done selection =>
          simp only [hSelect] at hCreate
          exact
            ⟨outputs, selection, .requested,
              PaysAtMost.refl outputs,
              fun hOther => absurd rfl hOther, hSelect,
              Option.some.inj hCreate⟩
      | tooLarge selection =>
          simp only [hSelect] at hCreate
          split_ifs at hCreate with hFunds
          · cases hCreate
          · simp only [Option.bind_eq_bind,
              Option.bind_eq_some_iff] at hCreate
            rcases hCreate with ⟨smaller, hSmaller, hRest⟩
            have hLarge :
                TooLarge wallet outputs selection :=
              ⟨hSelect, hFunds⟩
            have hReduced :
                PaysAtMost outputs smaller :=
              paysAtMost_smaller
                (fun last hLast =>
                  hExact outputs selection last .requested
                    hLarge hLast)
                hSmaller
            rcases ih
                (fun payment selection last hTried =>
                  hExact payment selection last
                    (hTried.of_smaller hLarge hSmaller))
                hRest with
              ⟨paid, final, hTried, hPaid, -, hDone, hFinish⟩
            exact
              ⟨paid, final, hTried.of_smaller hLarge hSmaller,
                hReduced.trans hPaid,
                fun _ => ⟨selection, hLarge⟩, hDone, hFinish⟩

omit [DecidableEq Hash] [DecidableEq Address] [Zero Hash] in
/- A finished transaction has the payment and its change. -/
theorem outputs_of_finish
    {rand : Nat → Nat}
    {change : Option (List.Vector UInt8 20)}
    {tx : BRTransaction Hash}
    (hPayload : selection.transaction.outputs = payment)
    (hFinish :
      wallet.finish rand change payment selection =
        some tx) :
    ∃ rest,
      tx.outputs.Perm (payment ++ rest) ∧
        rest.length ≤ 1 ∧
        ∀ output ∈ rest,
          output.script = changeScript change := by
  unfold finish at hFinish
  split_ifs at hFinish with hNone hChange
  · cases hFinish
    refine
      ⟨[changeOutput change payment selection], ?_, le_refl _,
        ?_⟩
    · have hPerm :=
        BRTransaction.shuffleOutputs_perm rand
          (selection.transaction.addOutput
            (changeOutput change payment selection))
      rw [BRTransaction.addOutput, hPayload] at hPerm
      rw [BRTransaction.addOutput, hPayload]
      exact hPerm
    · intro output hOutput
      rw [List.mem_singleton] at hOutput
      rw [hOutput]
      rfl
  · cases hFinish
    refine ⟨[], ?_, Nat.zero_le _, by simp⟩
    rw [List.append_nil, hPayload]

------------------------------------------------------------
-- The Law and Its Condition
------------------------------------------------------------

section Derivation

variable {keys : WalletKeys Address}
variable {derived : Bool → Nat → Address}
variable (hash160 : Address → List.Vector UInt8 20)

omit [DecidableEq Hash] [Zero Hash] in
/- The change address is one of the internal chain. -/
theorem exists_unusedChange
    (hDerive :
      ∀ internal j,
        keys.derive internal j = some (derived internal j))
    (hInjective :
      ∀ internal, Function.Injective (derived internal))
    (hChains : Chains derived wallet) :
    ∃ j,
      unusedChange keys hash160 wallet =
        some (hash160 (derived true j)) := by
  rcases unusedAddrs_spec hDerive hInjective hChains 1 true
    with ⟨addrs, next, hAddrs, -, -, -, hUnused, -⟩
  rcases hUnused with ⟨j, hSame, -⟩
  refine ⟨j, ?_⟩
  unfold unusedChange
  rw [hAddrs, hSame]
  rfl

end Derivation

/- A wallet with a coin of 1200100 and a coin of 1000000. -/
def coinsFunding : BRTransaction Nat :=
  { funding with
    outputs :=
      [{ amount := 1200100, script := [1] },
        { amount := 1000000, script := [1] }] }

def coinsWallet : BRWallet Nat Nat :=
  (BRWallet.new smallKeys [coinsFunding] 0).get
    (by decide +kernel)

/- An output that leaves space for one input only. -/
def longOutput (amount : UInt64) : BRTxOutput where
  amount := amount
  script := List.replicate 99795 0

/- The coins of the wallet as inputs. -/
def coinInput (n : UInt32) (amount : UInt64) :
    BRTxInput Nat where
  txHash := 1
  index := n
  amount := amount
  script := [1]
  signature := none
  sequence := TXIN_SEQUENCE

/- The first coin, which pays 200000 and 100 are left. -/
def coinsSelection (amount : UInt64) : Selection Nat where
  transaction :=
    (unfunded [longOutput amount]).addInput
      (coinInput 0 1200100)
  balance := 1200100
  feeAmount := 1000000

theorem outputSize_longOutput (amount : UInt64) :
    BRTransaction.outputSize (longOutput amount) = 99808 := by
  have hLength :
      (longOutput amount).script.length = 99795 :=
    List.length_replicate
  rw [BRTransaction.outputSize, hLength]
  rfl

theorem size_coinsSelection (amount : UInt64) :
    (coinsSelection amount).transaction.size = 99966 := by
  simp [coinsSelection, BRTransaction.size, unfunded,
    BRTransaction.addInput, BRTransaction.addOutput,
    BRTransaction.new, BRTransaction.inputSize, coinInput,
    outputSize_longOutput, varIntSize, TX_INPUT_SIZE]

theorem size_secondCoin (amount : UInt64) :
    ((coinsSelection amount).transaction.addInput
      (coinInput 1 1000000)).size = 100114 := by
  simp [coinsSelection, BRTransaction.size, unfunded,
    BRTransaction.addInput, BRTransaction.addOutput,
    BRTransaction.new, BRTransaction.inputSize, coinInput,
    outputSize_longOutput, varIntSize, TX_INPUT_SIZE]

/- The selection takes the first coin. -/
theorem select_longOutput
    {amount : UInt64}
    (hFee :
      coinsWallet.roundedFee amount 99966 = 1000000) :
    coinsWallet.select [longOutput amount] =
      if (1200100 : UInt64) = amount + 1000000 ∨
          amount + 1000000 + coinsWallet.minOutputAmount ≤
            1200100 then
        .done (coinsSelection amount)
      else .tooLarge (coinsSelection amount) := by
  have hUtxos :
      coinsWallet.utxos = [⟨1, 0⟩, ⟨1, 1⟩] := by
    decide +kernel
  have hFirst :
      spentOutput coinsWallet.allTx ⟨1, 0⟩ =
        some { amount := 1200100, script := [1] } := by
    decide +kernel
  have hSecond :
      spentOutput coinsWallet.allTx ⟨1, 1⟩ =
        some { amount := 1000000, script := [1] } := by
    decide +kernel
  have hSize := size_coinsSelection amount
  have hLarge := size_secondCoin amount
  have hTotal :
      totalAmount [longOutput amount] = amount :=
    UInt64.zero_add amount
  unfold coinsSelection coinInput at hSize hLarge
  unfold select
  rw [hUtxos, hTotal]
  simp only [selectInputs, hFirst, hSecond, hSize, hLarge,
    hFee]
  have hFits : ¬ TX_MAX_SIZE < 99966 + TX_OUTPUT_SIZE := by
    decide
  have hFull : TX_MAX_SIZE < 100114 + TX_OUTPUT_SIZE := by
    decide
  rw [if_neg hFits, if_pos hFull, UInt64.zero_add]
  rfl

/- The payment of 200000 is too large with a second coin. -/
theorem tooLarge_longOutput :
    TooLarge coinsWallet [longOutput 200000]
      (coinsSelection 200000) := by
  refine ⟨?_, by decide +kernel⟩
  rw [select_longOutput (by decide +kernel),
    if_neg (by decide +kernel)]

end BRWallet

end PlusWallet
