import PlusWallet.Transaction.Script

/-
  `BRTransactionSerialize`, and the data of which signatures
  are made.

  A `Writer` is given the rest of the buffer, as the code
  passes `&data[off]` and `dataLen - off`.

  Main declarations:
    * `UInt256`
    * `BRTransaction.witnessData`
    * `BRTransaction.transactionData`
    * `BRTransaction.serialize`
-/

namespace PlusWallet

open Bytes

/- 32 bytes, as they stand in memory. -/
abbrev UInt256 := List.Vector UInt8 32

instance : Zero UInt256 := ⟨List.Vector.replicate 32 0⟩

instance UInt256.lawfulBEq : LawfulBEq UInt256 := inferInstance

def SIGHASH_ALL : Nat := 0x01

def SIGHASH_NONE : Nat := 0x02

def SIGHASH_SINGLE : Nat := 0x03

def SIGHASH_ANYONECANPAY : Nat := 0x80

def SIGHASH_FORKID : Nat := 0x40

------------------------------------------------------------
-- Fields
------------------------------------------------------------

/- Several writers behind each other. -/
def fields (writers : List Writer) : Writer :=
  Writer.all writers

def writeUInt32 (number : UInt32) : Writer :=
  Writer.field (littleEndian 4 number.toNat)

def writeUInt64 (number : UInt64) : Writer :=
  Writer.field (littleEndian 8 number.toNat)

def writeHash (hash : UInt256) : Writer :=
  Writer.field hash.toList

namespace BRTransaction

/- `_BRTxInputData` -/
def txInputData (input : BRTxInput UInt256) : Writer :=
  let signature := input.signature.getD []
  (fields
    [writeHash input.txHash, -- previous out
      writeUInt32 input.index,
      varIntSet signature.length,
      Writer.field signature, -- scriptSig
      if input.amount ≠ 0 then writeUInt64 input.amount
      else Writer.nothing,
      writeUInt32 input.sequence]).whole

/- One round of the loop of `_BRTransactionOutputData`. -/
def outputFields (output : BRTxOutput) : Writer :=
  fields
    [writeUInt64 output.amount,
      varIntSet output.script.length,
      Writer.field output.script]

/-
  `_BRTransactionOutputData`, for all outputs when the index
  is `none`, which stands for `SIZE_MAX`
-/
def outputData
    (tx : BRTransaction UInt256)
    (index : Option Nat) : Writer :=
  let outputs :=
    match index with
    | none => tx.outputs
    | some i => (tx.outputs[i]?).toList
  (fields (outputs.map outputFields)).whole

------------------------------------------------------------
-- Signature Data
------------------------------------------------------------

/-
  `_BRTransactionWitnessData`, which writes the data of
  BIP143; `sha256_2` is the double SHA-256.
-/
def witnessData
    (sha256_2 : List UInt8 → UInt256)
    (tx : BRTransaction UInt256)
    (index : Option Nat)
    (hashType : Nat) : Writer :=
  let anyoneCanPay := hashType &&& SIGHASH_ANYONECANPAY ≠ 0
  let sigHash := hashType &&& 0x1f
  match index.bind fun i => tx.inputs[i]? with
  | none => Writer.nothing
  | some input =>
      let prevOuts :=
        tx.inputs.flatMap fun input =>
          input.txHash.toList ++
            littleEndian 4 input.index.toNat
      let sequences :=
        tx.inputs.flatMap fun input =>
          littleEndian 4 input.sequence.toNat
      (fields
        [writeUInt32 tx.version, -- tx version
          writeHash
            (if anyoneCanPay then 0 else sha256_2 prevOuts),
          writeHash
            (if ¬ anyoneCanPay ∧ sigHash ≠ SIGHASH_SINGLE ∧
                sigHash ≠ SIGHASH_NONE
            then sha256_2 sequences else 0),
          txInputData
            { input with signature := some input.script },
          writeHash
            (if sigHash ≠ SIGHASH_SINGLE ∧
                sigHash ≠ SIGHASH_NONE
            then sha256_2 (tx.outputData none).bytes
            else if sigHash = SIGHASH_SINGLE ∧
                index.any (· < tx.outputs.length)
            then sha256_2 (tx.outputData index).bytes
            else 0),
          writeUInt32 tx.lockTime, -- locktime
          Writer.field (littleEndian 4 hashType)]).whole

/-
  An input as the loop of `_BRTransactionData` writes it: the
  input at the index, or an unsigned one in a whole
  transaction, shows its script in the place of a signature.
-/
def signingInput
    (index : Option Nat)
    (sigHash : Nat)
    (i : Nat)
    (input : BRTxInput UInt256) : BRTxInput UInt256 :=
  if index = some i then
    { input with signature := some input.script, amount := 0 }
  else if index = none ∧ input.signature = none then
    { input with signature := some input.script }
  else if index ≠ none then
    { input with
      signature := some []
      sequence :=
        if sigHash = SIGHASH_NONE ∨ sigHash = SIGHASH_SINGLE
        then 0 else input.sequence
      amount := 0 }
  else { input with amount := 0 }

/- The inputs that `_BRTransactionData` writes. -/
def inputsData
    (tx : BRTransaction UInt256)
    (index : Option Nat)
    (sigHash : Nat) : Writer :=
  fields
    (tx.inputs.mapIdx fun i input =>
      txInputData (signingInput index sigHash i input))

/- The outputs that `_BRTransactionData` writes. -/
def outputsData
    (tx : BRTransaction UInt256)
    (index : Option Nat)
    (sigHash : Nat) : Writer :=
  if sigHash ≠ SIGHASH_SINGLE ∧ sigHash ≠ SIGHASH_NONE then
    -- SIGHASH_ALL outputs
    fields
      [varIntSet tx.outputs.length, tx.outputData none]
  else
    match
      index.filter fun i =>
        sigHash = SIGHASH_SINGLE ∧ i < tx.outputs.length
    with
    | some i =>
        -- SIGHASH_SINGLE outputs
        fields
          (varIntSet (i + 1) ::
            List.replicate i
              (fields [writeUInt64 (-1), varIntSet 0]) ++
            [tx.outputData (some i)])
    | none => varIntSet 0 -- SIGHASH_NONE outputs

/-
  `_BRTransactionData`, for the entire signed transaction when
  the index is `none`, which stands for `SIZE_MAX`
-/
def transactionData
    (sha256_2 : List UInt8 → UInt256)
    (tx : BRTransaction UInt256)
    (index : Option Nat)
    (hashType : Nat) : Writer :=
  let anyoneCanPay := hashType &&& SIGHASH_ANYONECANPAY ≠ 0
  let sigHash := hashType &&& 0x1f
  if hashType &&& SIGHASH_FORKID ≠ 0 then
    witnessData sha256_2 tx index hashType
  else
    let inputs : Option Writer :=
      if anyoneCanPay then
        (index.bind fun i => tx.inputs[i]?).map fun input =>
          fields
            [varIntSet 1,
              txInputData
                { input with
                  signature := some input.script
                  amount := 0 }]
      else
        some
          (fields
            [varIntSet tx.inputs.length,
              tx.inputsData index sigHash])
    match inputs with
    | none => Writer.nothing
    | some inputs =>
        (fields
          [writeUInt32 tx.version, -- tx version
            inputs,
            tx.outputsData index sigHash,
            writeUInt32 tx.lockTime, -- locktime
            if index ≠ none then
              Writer.field (littleEndian 4 hashType)
            else Writer.nothing]).whole

/- `BRTransactionSerialize` -/
def serialize
    (sha256_2 : List UInt8 → UInt256)
    (tx : BRTransaction UInt256) : Writer :=
  transactionData sha256_2 tx none SIGHASH_ALL

end BRTransaction

end PlusWallet
