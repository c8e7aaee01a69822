import Mathlib

/-
  Transactions as `BRTransaction.c` holds them, their size and
  the fee for a size.

  The addresses that the C records keep beside their scripts
  are computed from the scripts where they are needed.

  Main declarations:
    * `BRTransaction`
    * `BRTransaction.size`
    * `BRTransaction.addInput`, `BRTransaction.addOutput`
    * `BRTransaction.shuffleOutputs`
-/

namespace PlusWallet

------------------------------------------------------------
-- Constants
------------------------------------------------------------

/- standard tx fee per kb of tx size -/
def TX_FEE_PER_KB : Nat := 1000

/- estimated size for a typical transaction output -/
def TX_OUTPUT_SIZE : Nat := 34

/- estimated size for a typical compact pubkey transaction input -/
def TX_INPUT_SIZE : Nat := 148

/- no txout can be below this amount -/
def TX_MIN_OUTPUT_AMOUNT : Nat :=
  TX_FEE_PER_KB * 3 * (TX_OUTPUT_SIZE + TX_INPUT_SIZE) / 1000

/- no tx can be larger than this size in bytes -/
def TX_MAX_SIZE : Nat := 100000

/- block height indicating transaction is unconfirmed -/
def TX_UNCONFIRMED : Nat := 2 ^ 31 - 1

/- a lockTime below this value is a block height -/
def TX_MAX_LOCK_HEIGHT : Nat := 500000000

/- sequence number for a finalized tx input -/
def TXIN_SEQUENCE : UInt32 := 0xffffffff

------------------------------------------------------------
-- Records
------------------------------------------------------------

/-
  `BRTxInput`; the signature may be `NULL`, and an empty
  script stands for a `NULL` one.
-/
structure BRTxInput (Hash : Type) where
  txHash : Hash
  index : UInt32
  amount : UInt64
  script : List UInt8
  signature : Option (List UInt8)
  sequence : UInt32
deriving DecidableEq

/- `BRTxOutput` -/
structure BRTxOutput where
  amount : UInt64
  script : List UInt8
deriving DecidableEq

/- `BRTransaction`; heights and timestamps are numbers. -/
structure BRTransaction (Hash : Type) where
  txHash : Hash
  version : UInt32
  inputs : List (BRTxInput Hash)
  outputs : List BRTxOutput
  lockTime : UInt32
  blockHeight : Nat
  timestamp : Nat
deriving DecidableEq

/- `BRUTXO`: an output by its transaction and its index. -/
structure BRUTXO (Hash : Type) where
  hash : Hash
  n : UInt32
deriving DecidableEq

variable {Hash : Type}

/- The output that an input spends. -/
def BRTxInput.utxo (input : BRTxInput Hash) : BRUTXO Hash where
  hash := input.txHash
  n := input.index

/- `BRVarIntSize` -/
def varIntSize (i : Nat) : Nat :=
  if i < 0xfd then 1
  else if i < 2 ^ 16 then 3
  else if i < 2 ^ 32 then 5
  else 9

namespace BRTransaction

------------------------------------------------------------
-- Building a Transaction
------------------------------------------------------------

/- `BRTransactionNew` -/
def new [Zero Hash] : BRTransaction Hash where
  txHash := 0
  version := 1
  inputs := []
  outputs := []
  lockTime := 0
  blockHeight := TX_UNCONFIRMED
  timestamp := 0

/- `BRTransactionAddInput` -/
def addInput
    (tx : BRTransaction Hash)
    (input : BRTxInput Hash) : BRTransaction Hash :=
  { tx with inputs := tx.inputs ++ [input] }

/- `BRTransactionAddOutput` -/
def addOutput
    (tx : BRTransaction Hash)
    (output : BRTxOutput) : BRTransaction Hash :=
  { tx with outputs := tx.outputs ++ [output] }

/- Exchange two entries of a list. -/
def exchange
    {Item : Type}
    (items : List Item)
    (i j : Nat) : List Item :=
  match items[i]?, items[j]? with
  | some first, some second =>
      (items.set i second).set j first
  | _, _ => items

/-
  The loop of `BRTransactionShuffleOutputs`, from index `i`;
  `rand` gives the results of `rand()`.
-/
def shuffleFrom
    (rand : Nat → Nat) :
    Nat → Nat → List BRTxOutput → List BRTxOutput
  | 0, _, outputs => outputs
  | rounds + 1, i, outputs =>
      let j := i + rand i % (outputs.length - i)
      shuffleFrom rand rounds (i + 1) (exchange outputs i j)

/- `BRTransactionShuffleOutputs` -/
def shuffleOutputs
    (rand : Nat → Nat)
    (tx : BRTransaction Hash) : BRTransaction Hash :=
  { tx with
    outputs :=
      shuffleFrom rand (tx.outputs.length - 1) 0 tx.outputs }

------------------------------------------------------------
-- Size
------------------------------------------------------------

/- The bytes of an input, estimated when it is not signed. -/
def inputSize (input : BRTxInput Hash) : Nat :=
  match input.signature with
  | some signature =>
      32 + 4 + varIntSize signature.length +
        signature.length + 4
  | none => TX_INPUT_SIZE

/- The bytes of an output. -/
def outputSize (output : BRTxOutput) : Nat :=
  8 + varIntSize output.script.length + output.script.length

/- `BRTransactionSize`; no transaction has `2 ^ 64` bytes. -/
def size (tx : BRTransaction Hash) : Nat :=
  8 + varIntSize tx.inputs.length +
    varIntSize tx.outputs.length +
    (tx.inputs.map inputSize).sum +
    (tx.outputs.map outputSize).sum

/- `BRTransactionIsSigned` -/
def isSigned (tx : BRTransaction Hash) : Bool :=
  tx.inputs.all fun input => input.signature.isSome

------------------------------------------------------------
-- Sums and Permutations
------------------------------------------------------------

theorem exchange_perm
    {Item : Type}
    (items : List Item)
    (i j : Nat) :
    (exchange items i j).Perm items := by
  unfold exchange
  split
  next first second hFirst hSecond =>
    rcases List.getElem?_eq_some_iff.mp hFirst with
      ⟨hi, rfl⟩
    rcases List.getElem?_eq_some_iff.mp hSecond with
      ⟨hj, rfl⟩
    exact List.set_set_perm hi hj
  · exact List.Perm.refl items

theorem shuffleFrom_perm
    (rand : Nat → Nat)
    (rounds i : Nat)
    (outputs : List BRTxOutput) :
    (shuffleFrom rand rounds i outputs).Perm outputs := by
  induction rounds generalizing i outputs with
  | zero => exact List.Perm.refl outputs
  | succ rounds ih =>
      exact (ih (i + 1) _).trans (exchange_perm outputs i _)

/- Shuffling keeps the outputs and with them the size. -/
theorem shuffleOutputs_perm
    (rand : Nat → Nat)
    (tx : BRTransaction Hash) :
    (tx.shuffleOutputs rand).outputs.Perm tx.outputs :=
  shuffleFrom_perm rand _ 0 tx.outputs

@[simp]
theorem size_shuffleOutputs
    (rand : Nat → Nat)
    (tx : BRTransaction Hash) :
    (tx.shuffleOutputs rand).size = tx.size := by
  have hPerm := shuffleOutputs_perm rand tx
  have hSum := (hPerm.map outputSize).sum_eq
  have hLength := hPerm.length_eq
  rw [size, size, hSum, hLength]
  rfl

end BRTransaction

end PlusWallet
