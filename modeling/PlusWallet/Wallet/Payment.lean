import PlusWallet.Wallet.Wallet

/-
  `BRWalletCreateTxForOutputs`: select coins for a payment,
  shrink the payment when the transaction gets too large, and
  return the rest as change.

  Amounts are 64-bit numbers that wrap around, as in C.

  Main declarations:
    * `BRWallet.txFee`
    * `BRWallet.selectInputs`
    * `BRWallet.createTxForOutputs`
-/

namespace PlusWallet

variable {Hash Address : Type}
variable [DecidableEq Hash]

namespace BRWallet

------------------------------------------------------------
-- Fees
------------------------------------------------------------

/- `_txFee` -/
def txFee (feePerKb size : UInt64) : UInt64 :=
  -- standard fee based on tx size
  let standardFee := size * 1000 / 1000
  -- fee using feePerKb, rounded up to nearest 100 satoshi
  let fee := (size * feePerKb / 1000 + 99) / 100 * 100
  if standardFee < fee then fee else standardFee

/- The fee for a transaction of some size in a wallet. -/
def feeForSize
    (wallet : BRWallet Hash Address)
    (size : Nat) : UInt64 :=
  txFee wallet.feePerKb (UInt64.ofNat size)

/- `BRWalletMinOutputAmount` -/
def minOutputAmount
    (wallet : BRWallet Hash Address) : UInt64 :=
  let minimum := UInt64.ofNat TX_MIN_OUTPUT_AMOUNT
  let amount := (minimum * wallet.feePerKb + 1000 - 1) / 1000
  if minimum < amount then amount else minimum

------------------------------------------------------------
-- Change
------------------------------------------------------------

/-
  The script of the change address: the wallet's addresses
  are those of public key hashes, and an empty address has an
  empty script.
-/
def changeScript :
    Option (List.Vector UInt8 20) → List UInt8
  | some hash =>
      -- OP_DUP OP_HASH160 20 ... OP_EQUALVERIFY OP_CHECKSIG
      [0x76, 0xa9, 20] ++ hash.toList ++ [0x88, 0xac]
  | none => []

------------------------------------------------------------
-- Coin Selection
------------------------------------------------------------

/- The locals that the selection loop changes. -/
structure Selection (Hash : Type) where
  transaction : BRTransaction Hash
  balance : UInt64
  feeAmount : UInt64
deriving DecidableEq

/- The loop ended, or it met a transaction that is too large. -/
inductive Selected (Hash : Type) where
  | done (selection : Selection Hash)
  | tooLarge (selection : Selection Hash)
deriving DecidableEq

/- The fee that the loop settles on after adding an input. -/
def roundedFee
    (wallet : BRWallet Hash Address)
    (amount : UInt64)
    (size : Nat) : UInt64 :=
  -- fee amount after adding a change output
  let feeAmount := wallet.feeForSize (size + TX_OUTPUT_SIZE)
  -- increase fee to round off remaining wallet balance
  if amount + feeAmount < wallet.balance then
    feeAmount + (wallet.balance - (amount + feeAmount)) % 100
  else feeAmount

/- The loop over the coins of the wallet. -/
def selectInputs
    (wallet : BRWallet Hash Address)
    (amount minAmount : UInt64) :
    List (BRUTXO Hash) → Selection Hash → Selected Hash
  | [], selection => .done selection
  | o :: rest, selection =>
      match spentOutput wallet.allTx o with
      | none => selectInputs wallet amount minAmount rest selection
      | some output =>
          let transaction :=
            selection.transaction.addInput
              { txHash := o.hash
                index := o.n
                amount := output.amount
                script := output.script
                signature := none
                sequence := TXIN_SEQUENCE }
          if TX_MAX_SIZE < transaction.size + TX_OUTPUT_SIZE
          then .tooLarge selection
          else
            let balance := selection.balance + output.amount
            let feeAmount :=
              wallet.roundedFee amount transaction.size
            let selection :=
              { transaction := transaction
                balance := balance
                feeAmount := feeAmount }
            if balance = amount + feeAmount ∨
                amount + feeAmount + minAmount ≤ balance
            then .done selection
            else
              selectInputs wallet amount minAmount rest
                selection

/- The total of the outputs of a payment. -/
def totalAmount (outputs : List BRTxOutput) : UInt64 :=
  outputs.foldl
    (fun amount output => amount + output.amount) 0

/- The transaction with the outputs of a payment. -/
def unfunded
    [Zero Hash]
    (outputs : List BRTxOutput) : BRTransaction Hash :=
  outputs.foldl BRTransaction.addOutput BRTransaction.new

/- The selection for a payment. -/
def select
    [Zero Hash]
    (wallet : BRWallet Hash Address)
    (outputs : List BRTxOutput) : Selected Hash :=
  selectInputs wallet (totalAmount outputs)
    wallet.minOutputAmount wallet.utxos
    { transaction := unfunded outputs
      balance := 0
      feeAmount :=
        wallet.feeForSize
          ((unfunded outputs : BRTransaction Hash).size +
            TX_OUTPUT_SIZE) }

------------------------------------------------------------
-- Payments
------------------------------------------------------------

/-
  The payment to try instead of one that is too large: the
  last output reduced or removed.  Without any output the code
  reads in front of the array.
-/
def smallerOutputs
    (wallet : BRWallet Hash Address)
    (outputs : List BRTxOutput)
    (selection : Selection Hash) :
    Option (List BRTxOutput) :=
  let amount := totalAmount outputs
  outputs.getLast?.map fun last =>
    if amount + selection.feeAmount + wallet.minOutputAmount -
          selection.balance < last.amount then
      -- reduce last output amount
      outputs.dropLast ++
        [{ last with
            amount :=
              last.amount -
                (amount + selection.feeAmount -
                  selection.balance) }]
    else
      -- remove last output
      outputs.dropLast

/- What a selection leaves for change. -/
def changeAmount
    (outputs : List BRTxOutput)
    (selection : Selection Hash) : UInt64 :=
  selection.balance -
    (totalAmount outputs + selection.feeAmount)

/- The change output of a selection. -/
def changeOutput
    (change : Option (List.Vector UInt8 20))
    (outputs : List BRTxOutput)
    (selection : Selection Hash) : BRTxOutput where
  amount := changeAmount outputs selection
  script := changeScript change

/- The transaction of a finished selection, `none` for `NULL`. -/
def finish
    (wallet : BRWallet Hash Address)
    (rand : Nat → Nat)
    (change : Option (List.Vector UInt8 20))
    (outputs : List BRTxOutput)
    (selection : Selection Hash) :
    Option (BRTransaction Hash) :=
  if outputs = [] ∨
      selection.balance <
        totalAmount outputs + selection.feeAmount
  then none
  else if
      wallet.minOutputAmount < changeAmount outputs selection
  then
    some
      ((selection.transaction.addOutput
        (changeOutput change outputs
          selection)).shuffleOutputs rand)
  else some selection.transaction

/-
  `BRWalletCreateTxForOutputs`, with a bound on its recursion;
  the inner `none` is a result of `NULL`.  `change` is the
  address that `BRWalletUnusedAddrs` gives for change.
-/
def createTxForOutputs
    [Zero Hash]
    (wallet : BRWallet Hash Address)
    (rand : Nat → Nat)
    (change : Option (List.Vector UInt8 20)) :
    Nat → List BRTxOutput →
      Option (Option (BRTransaction Hash))
  | 0, _ => none
  | bound + 1, outputs =>
      match wallet.select outputs with
      | .done selection =>
          some (wallet.finish rand change outputs selection)
      | .tooLarge selection =>
          -- check for sufficient total funds before building
          -- a smaller transaction
          if wallet.balance <
              totalAmount outputs +
                wallet.feeForSize
                  (10 + wallet.utxos.length * TX_INPUT_SIZE +
                    (outputs.length + 1) * TX_OUTPUT_SIZE)
          then some none
          else do
            let outputs ←
              wallet.smallerOutputs outputs selection
            createTxForOutputs wallet rand change bound
              outputs

end BRWallet

end PlusWallet
