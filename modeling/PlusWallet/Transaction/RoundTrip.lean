import PlusWallet.Transaction.Parse

/-
  What `BRTransactionParse` makes of the bytes that
  `BRTransactionSerialize` writes.

  A signed input keeps its signature but not the script that
  it spends, which the format has no place for.

  Main declarations:
    * `BRTransaction.encoding` and `writes_serialize`
    * `BRTransaction.Writable`
    * `BRTransaction.parse_serialize`
    * `BRTransaction.script_not_kept`
-/

namespace PlusWallet

open Bytes

------------------------------------------------------------
-- Reading Fields
------------------------------------------------------------

section Reads

variable {buf bytes rest : List UInt8} {off : Nat}

theorem readField_eq
    (hBuf : buf.length < 2 ^ 64)
    (hStands : Stands buf off bytes) :
    readField buf off bytes.length = some bytes := by
  have hLe := hStands.le_length
  rw [readField, addSize_eq (by omega), if_pos hLe,
    hStands.slice_eq]

theorem readUInt32_eq
    (hBuf : buf.length < 2 ^ 64)
    {number : UInt32}
    (hStands :
      Stands buf off (littleEndian 4 number.toNat)) :
    readUInt32 buf off = some number := by
  have hField := readField_eq hBuf hStands
  rw [length_littleEndian] at hField
  rw [readUInt32, hField, Option.map_some,
    ofLittleEndian_littleEndian 4 number.toNat_lt,
    UInt32.ofNat_toNat]

theorem readUInt64_eq
    (hBuf : buf.length < 2 ^ 64)
    {number : UInt64}
    (hStands :
      Stands buf off (littleEndian 8 number.toNat)) :
    readUInt64 buf off = some number := by
  have hField := readField_eq hBuf hStands
  rw [length_littleEndian] at hField
  rw [readUInt64, hField, Option.map_some,
    ofLittleEndian_littleEndian 8 number.toNat_lt,
    UInt64.ofNat_toNat]

theorem readHash_eq
    (hBuf : buf.length < 2 ^ 64)
    {hash : UInt256}
    (hStands : Stands buf off hash.toList) :
    readHash buf off = some hash := by
  have hField := readField_eq hBuf hStands
  rw [List.Vector.toList_length] at hField
  rw [readHash, hField, Option.map_some,
    hashOfBytes_toList]

theorem varInt_eq
    {number : Nat}
    (hFits : number < 2 ^ 64)
    (hStands : Stands buf off (varIntBytes number)) :
    varInt (buf.drop off) = (number, varIntSize number) := by
  rcases hStands.2 with ⟨tail, hTail⟩
  rw [← hTail, varInt_varIntBytes hFits]

end Reads

namespace BRTransaction

------------------------------------------------------------
-- The Bytes
------------------------------------------------------------

/- The script or signature that an input shows. -/
def shownScript (input : BRTxInput UInt256) : List UInt8 :=
  input.signature.getD input.script

/- The amount that an input shows. -/
def amountBytes (input : BRTxInput UInt256) : List UInt8 :=
  if input.signature = none ∧ input.amount ≠ 0 then
    littleEndian 8 input.amount.toNat
  else []

def inputBytes (input : BRTxInput UInt256) : List UInt8 :=
  input.txHash.toList ++
    (littleEndian 4 input.index.toNat ++
      (varIntBytes (shownScript input).length ++
        (shownScript input ++
          (amountBytes input ++
            littleEndian 4 input.sequence.toNat))))

def outputBytes (output : BRTxOutput) : List UInt8 :=
  littleEndian 8 output.amount.toNat ++
    (varIntBytes output.script.length ++ output.script)

/- The bytes of an entire transaction. -/
def encoding (tx : BRTransaction UInt256) : List UInt8 :=
  littleEndian 4 tx.version.toNat ++
    (varIntBytes tx.inputs.length ++
      (tx.inputs.flatMap inputBytes ++
        (varIntBytes tx.outputs.length ++
          (tx.outputs.flatMap outputBytes ++
            littleEndian 4 tx.lockTime.toNat))))

theorem writes_cons
    {writer : Writer}
    {writers : List Writer}
    {bytes rest : List UInt8}
    (hFirst : Writes writer bytes)
    (hRest : Writes (fields writers) rest) :
    Writes (fields (writer :: writers)) (bytes ++ rest) :=
  hFirst.seq hRest

theorem writes_last
    {writer : Writer}
    {bytes : List UInt8}
    (hFirst : Writes writer bytes) :
    Writes (fields [writer]) bytes := by
  have hSeq := hFirst.seq Writes.nothing
  rwa [List.append_nil] at hSeq

theorem writes_txInputData
    (i : Nat)
    (input : BRTxInput UInt256) :
    Writes
      (txInputData (signingInput none SIGHASH_ALL i input))
      (inputBytes input) := by
  have hShown :
      (signingInput none SIGHASH_ALL i
          input).signature.getD [] =
        shownScript input := by
    cases hSignature : input.signature <;>
      simp [signingInput, shownScript, hSignature]
  have hAmount :
      Writes
        (if (signingInput none SIGHASH_ALL i input).amount ≠
            0 then
          writeUInt64
            (signingInput none SIGHASH_ALL i input).amount
        else Writer.nothing)
        (amountBytes input) := by
    cases hSignature : input.signature with
    | some signature =>
        simpa [signingInput, amountBytes, hSignature] using
          Writes.nothing
    | none =>
        by_cases hZero : input.amount = 0
        · simpa [signingInput, amountBytes, hSignature,
            hZero] using Writes.nothing
        · simpa [signingInput, amountBytes, hSignature,
            hZero, writeUInt64] using Writes.field _
  have hSame :
      (signingInput none SIGHASH_ALL i input).txHash =
          input.txHash ∧
        (signingInput none SIGHASH_ALL i input).index =
            input.index ∧
          (signingInput none SIGHASH_ALL i input).sequence =
            input.sequence := by
    cases hSignature : input.signature <;>
      simp [signingInput, hSignature]
  rw [txInputData]
  simp only [hShown, hSame]
  exact
    (writes_cons (Writes.field _)
      (writes_cons (Writes.field _)
        (writes_cons (writes_varIntSet _)
          (writes_cons (Writes.field _)
            (writes_cons hAmount
              (writes_last (Writes.field _))))))).whole

theorem writes_outputFields
    (output : BRTxOutput) :
    Writes (outputFields output) (outputBytes output) :=
  writes_cons (Writes.field _)
    (writes_cons (writes_varIntSet _)
      (writes_last (Writes.field _)))

theorem writes_inputsData
    (tx : BRTransaction UInt256) :
    Writes (tx.inputsData none SIGHASH_ALL)
      (tx.inputs.flatMap inputBytes) := by
  have hIndex :
      tx.inputsData none SIGHASH_ALL =
        Writer.all
          (tx.inputs.map fun input =>
            txInputData
              (signingInput none SIGHASH_ALL 0 input)) := by
    rw [inputsData, fields, List.mapIdx_eq_zipIdx_map]
    conv_rhs =>
      rw [← List.zipIdx_map_fst 0 tx.inputs, List.map_map]
    rfl
  rw [hIndex]
  exact Writes.all fun input _ => writes_txInputData 0 input

/- What `_BRTransactionData` does for an entire transaction. -/
theorem serialize_eq
    (sha256_2 : List UInt8 → UInt256)
    (tx : BRTransaction UInt256) :
    serialize sha256_2 tx =
      (fields
        [writeUInt32 tx.version,
          fields
            [varIntSet tx.inputs.length,
              tx.inputsData none SIGHASH_ALL],
          fields
            [varIntSet tx.outputs.length,
              tx.outputData none],
          writeUInt32 tx.lockTime, Writer.nothing]).whole := by
  have hForkId : SIGHASH_ALL &&& SIGHASH_FORKID = 0 := rfl
  have hAnyone :
      SIGHASH_ALL &&& SIGHASH_ANYONECANPAY = 0 := rfl
  have hSigHash : SIGHASH_ALL &&& 0x1f = SIGHASH_ALL := rfl
  have hAllOutputs :
      SIGHASH_ALL ≠ SIGHASH_SINGLE ∧
        SIGHASH_ALL ≠ SIGHASH_NONE := by
    decide
  simp only [serialize, transactionData, outputsData, hForkId,
    hAnyone, hSigHash, if_pos hAllOutputs, ne_eq,
    not_true_eq_false, if_false]

/- The serializer writes the bytes of the transaction. -/
theorem writes_serialize
    (sha256_2 : List UInt8 → UInt256)
    (tx : BRTransaction UInt256) :
    Writes (serialize sha256_2 tx) (encoding tx) := by
  have hOutputs :
      Writes
        (fields
          [varIntSet tx.outputs.length, tx.outputData none])
        (varIntBytes tx.outputs.length ++
          tx.outputs.flatMap outputBytes) :=
    writes_cons (writes_varIntSet _)
      (writes_last
        (Writes.all fun output _ =>
          writes_outputFields output).whole)
  have hInputs :=
    writes_cons (writes_varIntSet tx.inputs.length)
      (writes_last (writes_inputsData tx))
  have hAll :=
    (writes_cons (Writes.field (littleEndian 4 tx.version.toNat))
      (writes_cons hInputs
        (writes_cons hOutputs
          (writes_cons
            (Writes.field (littleEndian 4 tx.lockTime.toNat))
            (writes_last Writes.nothing))))).whole
  simp only [List.append_assoc, List.append_nil] at hAll
  rw [serialize_eq]
  exact hAll

------------------------------------------------------------
-- Parsing the Bytes
------------------------------------------------------------

/-
  An input that the parser tells from the other kind: a
  signature without the shape of an address script, or an
  address script with an amount.
-/
def Readable (input : BRTxInput UInt256) : Prop :=
  match input.signature with
  | some signature => isAddressScript signature = false
  | none =>
      isAddressScript input.script = true ∧ input.amount ≠ 0

/- The input that the parser finds. -/
def parsedInput
    (input : BRTxInput UInt256) : BRTxInput UInt256 :=
  match input.signature with
  | some _ => { input with script := [], amount := 0 }
  | none => input

section Parsing

variable {buf rest : List UInt8} {off : Nat}

theorem parseInput_eq
    (hBuf : buf.length < 2 ^ 64)
    {input : BRTxInput UInt256}
    (hReadable : Readable input)
    (hStands : Stands buf off (inputBytes input)) :
    parseInput buf off =
      some
        (parsedInput input,
          off + (inputBytes input).length,
          input.signature.isSome) := by
  -- where each field stands
  have hLe := hStands.le_length
  have hHash := hStands.front
  have hIndex := hStands.next
  have hCount := hIndex.next
  have hScript := hCount.next
  have hAmount := hScript.next
  have hSequence := hAmount.next
  simp only [inputBytes, List.length_append,
    List.Vector.toList_length, length_littleEndian,
    length_varIntBytes]
    at hLe hIndex hCount hScript hAmount hSequence
  have hSlice := hScript.front.slice_eq
  have hScriptOff :
      addSize (off + 32 + 4)
          (varIntSize (shownScript input).length) =
        off + 32 + 4 +
          varIntSize (shownScript input).length :=
    addSize_eq (by omega)
  have hEndOff :
      addSize
          (off + 32 + 4 +
            varIntSize (shownScript input).length)
          (shownScript input).length =
        off + 32 + 4 +
            varIntSize (shownScript input).length +
          (shownScript input).length :=
    addSize_eq (by omega)
  have hInside :
      off + 32 + 4 +
            varIntSize (shownScript input).length +
          (shownScript input).length ≤
        buf.length := by
    omega
  rw [parseInput, readHash_eq hBuf hHash]
  simp only [Option.bind_eq_bind, Option.bind_some,
    addSize_eq (show off + 32 < 2 ^ 64 by omega),
    readUInt32_eq hBuf hIndex.front,
    addSize_eq (show off + 32 + 4 < 2 ^ 64 by omega),
    varInt_eq (by omega) hCount.front, hScriptOff, hEndOff,
    hSlice, if_pos hInside]
  cases hSignature : input.signature with
  | some signature =>
      have hShown : shownScript input = signature := by
        simp [shownScript, hSignature]
      have hNoAmount : amountBytes input = [] := by
        simp [amountBytes, hSignature]
      have hOther : isAddressScript signature = false := by
        simpa [Readable, hSignature] using hReadable
      rw [hNoAmount, List.length_nil] at hSequence hLe
      rw [Nat.add_zero] at hSequence
      have hNextOff :
          addSize
              (off + 32 + 4 +
                  varIntSize (shownScript input).length +
                (shownScript input).length)
              4 =
            off + 32 + 4 +
                varIntSize (shownScript input).length +
              (shownScript input).length + 4 :=
        addSize_eq (by omega)
      rw [hShown] at hSequence hEndOff hNextOff
      simp only [hShown, hOther, Bool.false_eq_true, if_false,
        Option.bind_some, hNextOff,
        readUInt32_eq hBuf hSequence]
      have hEnd :
          off + (inputBytes input).length =
            off + 32 + 4 + varIntSize signature.length +
              signature.length + 4 := by
        simp only [inputBytes, List.length_append,
          List.Vector.toList_length, length_littleEndian,
          length_varIntBytes, hShown, hNoAmount,
          List.length_nil]
        omega
      simp only [hEnd, parsedInput, hSignature,
        Option.isSome_some]
  | none =>
      have hShown : shownScript input = input.script := by
        simp [shownScript, hSignature]
      have hUnsigned :
          isAddressScript input.script = true ∧
            input.amount ≠ 0 := by
        simpa [Readable, hSignature] using hReadable
      have hAmountBytes :
          amountBytes input =
            littleEndian 8 input.amount.toNat := by
        simp [amountBytes, hSignature, hUnsigned.2]
      rw [hAmountBytes] at hAmount hSequence hLe
      rw [length_littleEndian] at hSequence hLe
      -- the code moves over the amount before the script
      have hSkipOff :
          addSize
              (off + 32 + 4 +
                varIntSize (shownScript input).length) 8 =
            off + 32 + 4 +
              varIntSize (shownScript input).length + 8 :=
        addSize_eq (by omega)
      have hSequenceOff :
          addSize
              (off + 32 + 4 +
                varIntSize (shownScript input).length + 8)
              (shownScript input).length =
            off + 32 + 4 +
                  varIntSize (shownScript input).length +
                (shownScript input).length + 8 := by
        rw [addSize_eq (by omega)]
        omega
      have hNextOff :
          addSize
              (off + 32 + 4 +
                  varIntSize (shownScript input).length +
                (shownScript input).length + 8)
              4 =
            off + 32 + 4 +
                  varIntSize (shownScript input).length +
                (shownScript input).length + 8 + 4 :=
        addSize_eq (by omega)
      rw [hShown]
        at hAmount hSequence hSkipOff hSequenceOff hNextOff
      simp only [hShown, hUnsigned.1, if_true,
        Option.bind_some, hSkipOff, hSequenceOff, hNextOff,
        readUInt64_eq hBuf hAmount.front,
        readUInt32_eq hBuf hSequence]
      have hEnd :
          off + (inputBytes input).length =
            off + 32 + 4 + varIntSize input.script.length +
              input.script.length + 8 + 4 := by
        simp only [inputBytes, List.length_append,
          List.Vector.toList_length, length_littleEndian,
          length_varIntBytes, hShown, hAmountBytes]
        omega
      have hParsed : parsedInput input = input := by
        simp only [parsedInput, hSignature]
      have hRecord : { input with signature := none } = input := by
        rw [← hSignature]
      rw [hEnd, hParsed, Option.isSome_none]
      exact
        congrArg (fun found => some (found, _, false)) hRecord

theorem parseInputs_eq
    (hBuf : buf.length < 2 ^ 64)
    {inputs : List (BRTxInput UInt256)}
    (hReadable : ∀ input ∈ inputs, Readable input)
    (hStands :
      Stands buf off (inputs.flatMap inputBytes ++ rest)) :
    parseInputs buf inputs.length off =
      some
        (inputs.map parsedInput,
          off + (inputs.flatMap inputBytes).length,
          inputs.all fun input => input.signature.isSome) := by
  induction inputs generalizing off with
  | nil => rfl
  | cons input inputs ih =>
      rw [List.forall_mem_cons] at hReadable
      rw [List.flatMap_cons, List.append_assoc] at hStands
      have hHere := parseInput_eq hBuf hReadable.1 hStands.front
      have hRest := ih hReadable.2 hStands.next
      rw [List.length_cons, parseInputs, if_pos hStands.1]
      simp only [hHere, hRest, Option.bind_eq_bind,
        Option.bind_some, List.map_cons, List.flatMap_cons,
        List.length_append, List.all_cons, Nat.add_assoc]

theorem parseOutput_eq
    (hBuf : buf.length < 2 ^ 64)
    {output : BRTxOutput}
    (hStands : Stands buf off (outputBytes output)) :
    parseOutput buf off =
      some (output, off + (outputBytes output).length) := by
  have hLe := hStands.le_length
  have hAmount := hStands.front
  have hLength := hStands.next
  have hScript := hLength.next
  simp only [outputBytes, List.length_append,
    length_littleEndian, length_varIntBytes]
    at hLe hLength hScript
  have hSlice := hScript.slice_eq
  have hScriptOff :
      addSize (off + 8) (varIntSize output.script.length) =
        off + 8 + varIntSize output.script.length :=
    addSize_eq (by omega)
  have hEndOff :
      addSize
          (off + 8 + varIntSize output.script.length)
          output.script.length =
        off + 8 + varIntSize output.script.length +
          output.script.length :=
    addSize_eq (by omega)
  have hInside :
      off + 8 + varIntSize output.script.length +
          output.script.length ≤
        buf.length := by
    omega
  rw [parseOutput, readUInt64_eq hBuf hAmount]
  simp only [Option.bind_eq_bind, Option.bind_some,
    addSize_eq (show off + 8 < 2 ^ 64 by omega),
    varInt_eq (by omega) hLength.front, hScriptOff, hEndOff,
    hSlice, if_pos hInside]
  simp only [outputBytes, List.length_append,
    length_littleEndian, length_varIntBytes, Nat.add_assoc]

theorem parseOutputs_eq
    (hBuf : buf.length < 2 ^ 64)
    {outputs : List BRTxOutput}
    (hStands :
      Stands buf off (outputs.flatMap outputBytes ++ rest)) :
    parseOutputs buf outputs.length off =
      some
        (outputs,
          off + (outputs.flatMap outputBytes).length) := by
  induction outputs generalizing off with
  | nil => rfl
  | cons output outputs ih =>
      rw [List.flatMap_cons, List.append_assoc] at hStands
      have hHere := parseOutput_eq hBuf hStands.front
      have hRest := ih hStands.next
      rw [List.length_cons, parseOutputs, if_pos hStands.1]
      simp only [hHere, hRest, Option.bind_eq_bind,
        Option.bind_some, List.flatMap_cons,
        List.length_append, Nat.add_assoc]

end Parsing

------------------------------------------------------------
-- Round Trip
------------------------------------------------------------

/-
  The transactions that the format can hold, with the hash
  that the code gives them: that of the bytes once all inputs
  are signed.
-/
structure Writable
    (sha256_2 : List UInt8 → UInt256)
    (tx : BRTransaction UInt256) : Prop where
  nonempty : tx.inputs ≠ []
  readable : ∀ input ∈ tx.inputs, Readable input
  hash :
    tx.txHash =
      if tx.isSigned then
        sha256_2 (serialize sha256_2 tx).bytes
      else 0

/-
  The transaction that the parser finds; the height and the
  timestamp are not serialized.
-/
def parsed
    (tx : BRTransaction UInt256) : BRTransaction UInt256 :=
  { tx with
    inputs := tx.inputs.map parsedInput
    blockHeight := TX_UNCONFIRMED
    timestamp := 0 }

/- Every item of a list needs a byte at least. -/
theorem length_le_flatMap
    {Item : Type}
    (items : List Item)
    (bytes : Item → List UInt8)
    (hBytes : ∀ item, bytes item ≠ []) :
    items.length ≤ (items.flatMap bytes).length := by
  induction items with
  | nil => exact Nat.zero_le _
  | cons item items ih =>
      have hItem := List.length_pos_iff.mpr (hBytes item)
      rw [List.flatMap_cons, List.length_append,
        List.length_cons]
      omega

/- The parser reads all bytes of a transaction back. -/
theorem parse_encoding
    (sha256_2 : List UInt8 → UInt256)
    {tx : BRTransaction UInt256}
    (hNonempty : tx.inputs ≠ [])
    (hReadable : ∀ input ∈ tx.inputs, Readable input)
    (hSize : (encoding tx).length < 2 ^ 64) :
    parse sha256_2 (encoding tx) =
      some
        (some
          { parsed tx with
            txHash :=
              if tx.isSigned then sha256_2 (encoding tx)
              else 0 }) := by
  obtain ⟨buf, hBytes⟩ : ∃ buf, buf = encoding tx := ⟨_, rfl⟩
  rw [← hBytes] at hSize ⊢
  -- where each field stands
  have hVersion := Stands.whole buf
  conv at hVersion => rhs; rw [hBytes, encoding]
  have hInCount := hVersion.next
  have hInputs := hInCount.next
  have hOutCount := hInputs.next
  have hOutputs := hOutCount.next
  have hLockTime := hOutputs.next
  have hLength := congrArg List.length hBytes
  have hInFew :=
    length_le_flatMap tx.inputs inputBytes
      (by simp [inputBytes, littleEndian])
  have hOutFew :=
    length_le_flatMap tx.outputs outputBytes
      (by simp [outputBytes, littleEndian])
  simp only [encoding, List.length_append,
    length_littleEndian, length_varIntBytes, Nat.zero_add]
    at hLength hInCount hInputs hOutCount hOutputs hLockTime
  have hInOff :
      addSize 4 (varIntSize tx.inputs.length) =
        4 + varIntSize tx.inputs.length :=
    addSize_eq (by omega)
  have hOutOff :
      addSize
          (4 + varIntSize tx.inputs.length +
            (tx.inputs.flatMap inputBytes).length)
          (varIntSize tx.outputs.length) =
        4 + varIntSize tx.inputs.length +
            (tx.inputs.flatMap inputBytes).length +
          varIntSize tx.outputs.length :=
    addSize_eq (by omega)
  have hEnd :
      addSize
          (4 + varIntSize tx.inputs.length +
                (tx.inputs.flatMap inputBytes).length +
              varIntSize tx.outputs.length +
            (tx.outputs.flatMap outputBytes).length)
          4 =
        buf.length := by
    rw [addSize_eq (by omega)]
    omega
  have hSome : ¬ (tx.inputs.length = 0 ∨ buf.length < buf.length) := by
    simpa using hNonempty
  rw [parse, readUInt32_eq hSize hVersion.front]
  simp only [Option.bind_eq_bind, Option.bind_some,
    varInt_eq (by omega) hInCount.front, hInOff,
    parseInputs_eq hSize hReadable hInputs,
    varInt_eq (by omega) hOutCount.front, hOutOff,
    parseOutputs_eq hSize hOutputs,
    readUInt32_eq hSize hLockTime, hEnd, if_neg hSome,
    List.take_length]
  rfl

/-
  Whatever the buffer, the bytes that are written to it parse
  to the same transaction, and `NULL` gets their number.
-/
theorem parse_serialize
    (sha256_2 : List UInt8 → UInt256)
    {tx : BRTransaction UInt256}
    (hWritable : Writable sha256_2 tx)
    {room : List UInt8}
    (hRoom :
      (serialize sha256_2 tx none).1 ≤ room.length)
    (hSize : room.length < 2 ^ 64) :
    ∃ written,
      serialize sha256_2 tx (some room) =
          ((serialize sha256_2 tx none).1, some written) ∧
        parse sha256_2
            (written.take (serialize sha256_2 tx none).1) =
          some (some (parsed tx)) := by
  have hWrites := writes_serialize sha256_2 tx
  have hHash := hWritable.hash
  rw [hWrites.bytes_eq] at hHash
  simp only [hWrites.null] at hRoom ⊢
  refine ⟨_, hWrites.buffer room hRoom, ?_⟩
  rw [List.take_left,
    parse_encoding sha256_2 hWritable.nonempty
      hWritable.readable (by omega), ← hHash]
  rfl

/- A pay-to-pubkey-hash script. -/
def payScript : List UInt8 :=
  [0x76, 0xa9, 20] ++ List.replicate 20 7 ++ [0x88, 0xac]

/- An unsigned transaction. -/
def unsignedTx : BRTransaction UInt256 :=
  ((new : BRTransaction UInt256).addInput
    { txHash := List.Vector.replicate 32 1
      index := 0
      amount := 5000
      script := payScript
      signature := none
      sequence := TXIN_SEQUENCE }).addOutput
    { amount := 4000, script := payScript }

theorem parse_serialize_unsigned :
    ∃ written,
      serialize hashOfBytes unsignedTx
            (some (List.replicate 200 0)) =
          ((serialize hashOfBytes unsignedTx none).1,
            some written) ∧
        parse hashOfBytes
            (written.take
              (serialize hashOfBytes unsignedTx none).1) =
          some (some (parsed unsignedTx)) := by
  have hReadable :
      ∀ input ∈ unsignedTx.inputs, Readable input := by
    intro input hInput
    rw [unsignedTx, addOutput, addInput, new,
      List.nil_append, List.mem_singleton] at hInput
    subst hInput
    exact ⟨by decide +kernel, by decide⟩
  exact
    parse_serialize hashOfBytes
      ⟨by decide, hReadable, by decide +kernel⟩
      (by decide +kernel)
      (by rw [List.length_replicate]; decide)

/- A signed transaction that knows the script it spends. -/
def signedTx : BRTransaction UInt256 :=
  ((new : BRTransaction UInt256).addInput
    { txHash := List.Vector.replicate 32 1
      index := 0
      amount := 5000
      script := payScript
      signature := some [1, 2]
      sequence := TXIN_SEQUENCE }).addOutput
    { amount := 4000, script := payScript }

/- The script of a signed input does not come back. -/
theorem script_not_kept :
    signedTx.isSigned ∧ signedTx.outputs ≠ [] ∧
      ∃ found,
        parse hashOfBytes
            (serialize hashOfBytes signedTx).bytes =
          some (some found) ∧
        found.inputs.map BRTxInput.script ≠
          signedTx.inputs.map BRTxInput.script := by
  refine ⟨by decide, by decide, ?_⟩
  have hReadable :
      ∀ input ∈ signedTx.inputs, Readable input := by
    intro input hInput
    rw [signedTx, addOutput, addInput, new,
      List.nil_append, List.mem_singleton] at hInput
    subst hInput
    exact show isAddressScript [1, 2] = false by
      decide +kernel
  rw [(writes_serialize hashOfBytes signedTx).bytes_eq,
    parse_encoding hashOfBytes (by decide) hReadable
      (by decide +kernel)]
  exact ⟨_, rfl, by decide⟩

end BRTransaction

end PlusWallet
