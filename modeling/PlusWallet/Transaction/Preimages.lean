import PlusWallet.Transaction.RoundTrip

/-
  The data that is hashed for a signature, against the two
  references: BIP143, and a transaction whose other inputs and
  outputs are blanked.

  Main declarations:
    * `bip143Preimage`, `legacyPreimage`
    * `writes_witnessData`, `writes_transactionData`
    * `transactionData_withoutSignatures`
    * `signInput`, `digest_signInputs`
    * `ReferencePreimages`, `referencePreimages_iff`
-/

namespace PlusWallet

open Bytes

namespace BRTransaction

------------------------------------------------------------
-- Hash Types
------------------------------------------------------------

abbrev AnyoneCanPay (hashType : Nat) : Prop :=
  hashType &&& SIGHASH_ANYONECANPAY ≠ 0

abbrev SignsSingle (hashType : Nat) : Prop :=
  hashType &&& 0x1f = SIGHASH_SINGLE

/- Every hash type but the two that name fewer outputs. -/
abbrev SignsAll (hashType : Nat) : Prop :=
  hashType &&& 0x1f ≠ SIGHASH_SINGLE ∧
    hashType &&& 0x1f ≠ SIGHASH_NONE

------------------------------------------------------------
-- The Preimage of BIP143
------------------------------------------------------------

/- The output that an input spends. -/
def outpointBytes (input : BRTxInput UInt256) : List UInt8 :=
  input.txHash.toList ++ littleEndian 4 input.index.toNat

def hashPrevouts
    (sha256_2 : List UInt8 → UInt256)
    (tx : BRTransaction UInt256)
    (hashType : Nat) : UInt256 :=
  if AnyoneCanPay hashType then 0
  else sha256_2 (tx.inputs.flatMap outpointBytes)

def hashSequence
    (sha256_2 : List UInt8 → UInt256)
    (tx : BRTransaction UInt256)
    (hashType : Nat) : UInt256 :=
  if ¬ AnyoneCanPay hashType ∧ SignsAll hashType then
    sha256_2
      (tx.inputs.flatMap fun input =>
        littleEndian 4 input.sequence.toNat)
  else 0

def hashOutputs
    (sha256_2 : List UInt8 → UInt256)
    (tx : BRTransaction UInt256)
    (i : Nat)
    (hashType : Nat) : UInt256 :=
  if SignsAll hashType then
    sha256_2 (tx.outputs.flatMap outputBytes)
  else if SignsSingle hashType then
    match tx.outputs[i]? with
    | some output => sha256_2 (outputBytes output)
    | none => 0
  else 0

/- The preimage of BIP143, with the bytes of the value. -/
def witnessPreimage
    (sha256_2 : List UInt8 → UInt256)
    (tx : BRTransaction UInt256)
    (i : Nat)
    (input : BRTxInput UInt256)
    (value : List UInt8)
    (hashType : Nat) : List UInt8 :=
  littleEndian 4 tx.version.toNat ++
    ((hashPrevouts sha256_2 tx hashType).toList ++
      ((hashSequence sha256_2 tx hashType).toList ++
        ((outpointBytes input ++
            (varIntBytes input.script.length ++
              (input.script ++
                (value ++
                  littleEndian 4 input.sequence.toNat)))) ++
          ((hashOutputs sha256_2 tx i hashType).toList ++
            (littleEndian 4 tx.lockTime.toNat ++
              littleEndian 4 hashType)))))

def bip143Preimage
    (sha256_2 : List UInt8 → UInt256)
    (tx : BRTransaction UInt256)
    (i : Nat)
    (input : BRTxInput UInt256)
    (hashType : Nat) : List UInt8 :=
  witnessPreimage sha256_2 tx i input
    (littleEndian 8 input.amount.toNat) hashType

/- The value as it is written: nothing, if it is zero. -/
def shownValue (input : BRTxInput UInt256) : List UInt8 :=
  if input.amount ≠ 0 then littleEndian 8 input.amount.toNat
  else []

theorem writes_inputData (input : BRTxInput UInt256) :
    Writes (txInputData input)
      (outpointBytes input ++
        (varIntBytes (input.signature.getD []).length ++
          (input.signature.getD [] ++
            (shownValue input ++
              littleEndian 4 input.sequence.toNat)))) := by
  have hValue :
      Writes
        (if input.amount ≠ 0 then writeUInt64 input.amount
          else Writer.nothing)
        (shownValue input) := by
    unfold shownValue
    split_ifs
    · exact Writes.field _
    · exact Writes.nothing
  rw [outpointBytes, List.append_assoc]
  exact
    (writes_cons (Writes.field _)
      (writes_cons (Writes.field _)
        (writes_cons (writes_varIntSet _)
          (writes_cons (Writes.field _)
            (writes_cons hValue
              (writes_last (Writes.field _))))))).whole

theorem writes_outputData_none (tx : BRTransaction UInt256) :
    Writes (tx.outputData none)
      (tx.outputs.flatMap outputBytes) :=
  (Writes.all fun output _ => writes_outputFields output).whole

theorem writes_outputData_some
    (tx : BRTransaction UInt256)
    (i : Nat) :
    Writes (tx.outputData (some i))
      ((tx.outputs[i]?).toList.flatMap outputBytes) :=
  (Writes.all fun output _ => writes_outputFields output).whole

/- The hash of the outputs, as the branches of the code. -/
theorem hashOutputs_eq
    (sha256_2 : List UInt8 → UInt256)
    (tx : BRTransaction UInt256)
    (i hashType : Nat) :
    (if hashType &&& 0x1f ≠ SIGHASH_SINGLE ∧
          hashType &&& 0x1f ≠ SIGHASH_NONE
      then sha256_2 (tx.outputData none).bytes
      else if hashType &&& 0x1f = SIGHASH_SINGLE ∧
          (some i).any (· < tx.outputs.length)
      then sha256_2 (tx.outputData (some i)).bytes
      else 0) =
      hashOutputs sha256_2 tx i hashType := by
  rw [(writes_outputData_none tx).bytes_eq,
    (writes_outputData_some tx i).bytes_eq]
  unfold hashOutputs SignsAll SignsSingle
  by_cases hAll :
      hashType &&& 0x1f ≠ SIGHASH_SINGLE ∧
        hashType &&& 0x1f ≠ SIGHASH_NONE
  · rw [if_pos hAll, if_pos hAll]
  · rw [if_neg hAll, if_neg hAll]
    by_cases hSingle : hashType &&& 0x1f = SIGHASH_SINGLE
    · rw [if_pos hSingle]
      cases hOutput : tx.outputs[i]? with
      | some output =>
          rcases List.getElem?_eq_some_iff.mp hOutput with
            ⟨hInside, -⟩
          rw [if_pos ⟨hSingle, by simpa using hInside⟩]
          simp
      | none =>
          have hBeyond := List.getElem?_eq_none_iff.mp hOutput
          rw [if_neg]
          rintro ⟨-, hInside⟩
          simp only [Option.any_some, decide_eq_true_eq]
            at hInside
          omega
    · rw [if_neg hSingle, if_neg]
      rintro ⟨hSame, -⟩
      exact hSingle hSame

/- What is written is the preimage, but for a value of zero. -/
theorem writes_witnessData
    (sha256_2 : List UInt8 → UInt256)
    {tx : BRTransaction UInt256}
    {i : Nat}
    {input : BRTxInput UInt256}
    (hInput : tx.inputs[i]? = some input)
    (hashType : Nat) :
    Writes (tx.witnessData sha256_2 (some i) hashType)
      (witnessPreimage sha256_2 tx i input
        (shownValue input) hashType) := by
  unfold witnessData
  simp only [Option.bind_some, hInput]
  rw [hashOutputs_eq]
  have hData :=
    writes_inputData { input with signature := some input.script }
  exact
    (writes_cons (Writes.field _)
      (writes_cons
        (Writes.field
          (hashPrevouts sha256_2 tx hashType).toList)
        (writes_cons
          (Writes.field
            (hashSequence sha256_2 tx hashType).toList)
          (writes_cons hData
            (writes_cons (Writes.field _)
              (writes_cons (Writes.field _)
                (writes_last (Writes.field _)))))))).whole

------------------------------------------------------------
-- The Legacy Preimage
------------------------------------------------------------

/- The inputs of the copy that is signed for an index. -/
def legacyInputs
    (tx : BRTransaction UInt256)
    (i : Nat)
    (hashType : Nat) : List (BRTxInput UInt256) :=
  if AnyoneCanPay hashType then
    (tx.inputs[i]?).toList.map fun input =>
      { input with signature := some input.script }
  else
    tx.inputs.mapIdx fun j input =>
      if j = i then
        { input with signature := some input.script }
      else
        { input with
          signature := some []
          sequence :=
            if SignsAll hashType then input.sequence else 0 }

/- An output that is blanked before the single one. -/
def nullOutput : BRTxOutput where
  amount := -1
  script := []

/- Its outputs: all of them, none, or a single one. -/
def legacyOutputs
    (tx : BRTransaction UInt256)
    (i : Nat)
    (hashType : Nat) : List BRTxOutput :=
  if SignsAll hashType then tx.outputs
  else if SignsSingle hashType then
    List.replicate i nullOutput ++ (tx.outputs[i]?).toList
  else []

/- The bytes of the copy, and the hash type behind them. -/
def legacyPreimage
    (tx : BRTransaction UInt256)
    (i : Nat)
    (hashType : Nat) : List UInt8 :=
  encoding
      { tx with
        inputs := tx.legacyInputs i hashType
        outputs := tx.legacyOutputs i hashType } ++
    littleEndian 4 hashType

/-
  The legacy reference signs no data at all for a single
  output that is not there, but a constant.
-/
def HasLegacyPreimage
    (tx : BRTransaction UInt256)
    (i : Nat)
    (hashType : Nat) : Prop :=
  hashType &&& SIGHASH_FORKID = 0 ∧
    (SignsSingle hashType → i < tx.outputs.length)

/- An input without a value, with a script for a signature. -/
theorem writes_inputBytes
    {input shown : BRTxInput UInt256}
    {script : List UInt8}
    (hSignature : input.signature = some script)
    (hShown : shown = { input with amount := 0 }) :
    Writes (txInputData shown) (inputBytes input) := by
  have hData := writes_inputData shown
  have hBytes :
      inputBytes input =
        outpointBytes shown ++
          (varIntBytes (shown.signature.getD []).length ++
            (shown.signature.getD [] ++
              (shownValue shown ++
                littleEndian 4 shown.sequence.toNat))) := by
    subst hShown
    simp [inputBytes, shownScript, amountBytes, hSignature,
      outpointBytes, shownValue]
  rw [hBytes]
  exact hData

/- A loop over items and indices that shows other items. -/
theorem writes_mapIdx
    {Item Shown : Type}
    {writer : Nat → Item → Writer}
    {shown : Nat → Item → Shown}
    {bytes : Shown → List UInt8}
    (hItems :
      ∀ i item, Writes (writer i item) (bytes (shown i item)))
    (items : List Item) :
    Writes (fields (items.mapIdx writer))
      ((items.mapIdx shown).flatMap bytes) := by
  induction items generalizing writer shown with
  | nil => exact Writes.nothing
  | cons item items ih =>
      rw [List.mapIdx_cons, List.mapIdx_cons, List.flatMap_cons]
      exact
        writes_cons (hItems 0 item)
          (ih fun i item => hItems (i + 1) item)

/- The inputs of an ordinary hash type. -/
theorem writes_inputsData_some
    (tx : BRTransaction UInt256)
    (i : Nat)
    {hashType : Nat}
    (hAnyone : ¬ AnyoneCanPay hashType) :
    Writes (tx.inputsData (some i) (hashType &&& 0x1f))
      ((tx.legacyInputs i hashType).flatMap inputBytes) := by
  unfold legacyInputs inputsData
  rw [if_neg hAnyone]
  apply writes_mapIdx
  intro j input
  unfold signingInput
  by_cases hIndex : j = i
  · subst hIndex
    rw [if_pos rfl, if_pos rfl]
    exact writes_inputBytes rfl rfl
  · have hOther : some i ≠ some j := by
      simpa using Ne.symm hIndex
    rw [if_neg hOther, if_neg (by simp), if_pos (by simp),
      if_neg hIndex]
    apply writes_inputBytes rfl
    by_cases hAll : SignsAll hashType
    · rw [if_pos hAll, if_neg (by tauto)]
    · rw [if_neg hAll, if_pos (by tauto)]

/- The outputs that are blanked before a single one. -/
theorem writes_nullOutputs
    (count : Nat)
    {rest : List Writer}
    {bytes : List UInt8}
    (hRest : Writes (fields rest) bytes) :
    Writes
      (fields
        (List.replicate count
            (fields [writeUInt64 (-1), varIntSet 0]) ++ rest))
      ((List.replicate count nullOutput).flatMap outputBytes ++
        bytes) := by
  have hNull :
      Writes (fields [writeUInt64 (-1), varIntSet 0])
        (outputBytes nullOutput) :=
    writes_cons (Writes.field _)
      (writes_last (writes_varIntSet 0))
  induction count with
  | zero => exact hRest
  | succ count ih =>
      rw [List.replicate_succ, List.replicate_succ,
        List.flatMap_cons, List.append_assoc]
      exact writes_cons hNull ih

theorem writes_outputsData
    {tx : BRTransaction UInt256}
    {i hashType : Nat}
    (hSingle : SignsSingle hashType → i < tx.outputs.length) :
    Writes (tx.outputsData (some i) (hashType &&& 0x1f))
      (varIntBytes (tx.legacyOutputs i hashType).length ++
        (tx.legacyOutputs i hashType).flatMap outputBytes) := by
  unfold outputsData legacyOutputs
  by_cases hAll : SignsAll hashType
  · rw [if_pos hAll, if_pos hAll]
    exact
      writes_cons (writes_varIntSet _)
        (writes_last (writes_outputData_none tx))
  rw [if_neg hAll, if_neg hAll]
  by_cases hOne : SignsSingle hashType
  · have hInside := hSingle hOne
    have hOutput :=
      writes_outputData_some tx i
    rw [if_pos hOne, Option.filter_some,
      if_pos (by simpa using ⟨hOne, hInside⟩)]
    dsimp only
    rw [List.getElem?_eq_getElem hInside] at hOutput ⊢
    rw [List.flatMap_append, List.length_append,
      List.length_replicate]
    exact
      writes_cons (writes_varIntSet (i + 1))
        (writes_nullOutputs i (writes_last hOutput))
  · rw [if_neg hOne, Option.filter_some,
      if_neg (by simpa using fun h => absurd h hOne)]
    dsimp only
    rw [List.flatMap_nil, List.append_nil]
    exact writes_varIntSet 0

/- The inputs of a hash type that signs one of them. -/
theorem writes_singleInput
    {tx : BRTransaction UInt256}
    {i : Nat}
    {input : BRTxInput UInt256}
    (hInput : tx.inputs[i]? = some input)
    {hashType : Nat}
    (hAnyone : AnyoneCanPay hashType) :
    Writes
      (fields
        [varIntSet 1,
          txInputData
            { input with
              signature := some input.script
              amount := 0 }])
      (varIntBytes (tx.legacyInputs i hashType).length ++
        (tx.legacyInputs i hashType).flatMap inputBytes) := by
  have hOne :
      Writes
        (txInputData
          { input with
            signature := some input.script
            amount := 0 })
        (inputBytes
          { input with signature := some input.script }) :=
    writes_inputBytes rfl rfl
  unfold legacyInputs
  rw [if_pos hAnyone, hInput]
  simp only [Option.toList_some, List.map_cons, List.map_nil,
    List.flatMap_cons, List.flatMap_nil, List.append_nil]
  exact writes_cons (writes_varIntSet 1) (writes_last hOne)

/- Without the fork bit the legacy preimage is written. -/
theorem writes_transactionData
    (sha256_2 : List UInt8 → UInt256)
    {tx : BRTransaction UInt256}
    {i : Nat}
    {input : BRTxInput UInt256}
    (hInput : tx.inputs[i]? = some input)
    {hashType : Nat}
    (hLegacy : HasLegacyPreimage tx i hashType) :
    Writes (tx.transactionData sha256_2 (some i) hashType)
      (legacyPreimage tx i hashType) := by
  have hOutputs := writes_outputsData hLegacy.2
  have hEnd (writer : Writer) {bytes : List UInt8}
      (hInputs : Writes writer bytes) :=
    (writes_cons (Writes.field (littleEndian 4 tx.version.toNat))
      (writes_cons hInputs
        (writes_cons hOutputs
          (writes_cons
            (Writes.field (littleEndian 4 tx.lockTime.toNat))
            (writes_last
              (Writes.field
                (littleEndian 4 hashType))))))).whole
  unfold transactionData
  dsimp only
  rw [if_neg (not_not.mpr hLegacy.1)]
  by_cases hAnyone : AnyoneCanPay hashType
  · rw [if_pos hAnyone, Option.bind_some, hInput,
      Option.map_some]
    have hWrites := hEnd _ (writes_singleInput hInput hAnyone)
    simp only [List.append_assoc] at hWrites
    simp only [legacyPreimage, encoding, List.append_assoc]
    exact hWrites
  · rw [if_neg hAnyone]
    have hInputs :=
      writes_cons
        (writes_varIntSet (tx.legacyInputs i hashType).length)
        (writes_last (writes_inputsData_some tx i hAnyone))
    have hWrites := hEnd _ hInputs
    have hCount :
        (tx.legacyInputs i hashType).length =
          tx.inputs.length := by
      unfold legacyInputs
      rw [if_neg hAnyone, List.length_mapIdx]
    simp only [List.append_assoc] at hWrites
    simp only [legacyPreimage, encoding, List.append_assoc]
    rw [hCount] at hWrites ⊢
    exact hWrites

------------------------------------------------------------
-- Signatures That Are There Already
------------------------------------------------------------

def unsigned (input : BRTxInput UInt256) : BRTxInput UInt256 :=
  { input with signature := none }

/- The transaction before any input was signed. -/
def withoutSignatures
    (tx : BRTransaction UInt256) : BRTransaction UInt256 :=
  { tx with inputs := tx.inputs.map unsigned }

theorem getElem?_withoutSignatures
    (tx : BRTransaction UInt256)
    (i : Nat) :
    tx.withoutSignatures.inputs[i]? =
      (tx.inputs[i]?).map unsigned := by
  unfold withoutSignatures
  exact List.getElem?_map

/- No signature is read for the preimage of BIP143. -/
theorem witnessData_withoutSignatures
    (sha256_2 : List UInt8 → UInt256)
    (tx : BRTransaction UInt256)
    (i hashType : Nat) :
    tx.withoutSignatures.witnessData sha256_2 (some i) hashType =
      tx.witnessData sha256_2 (some i) hashType := by
  unfold witnessData
  simp only [Option.bind_some, getElem?_withoutSignatures]
  cases tx.inputs[i]? with
  | none => rfl
  | some input =>
      simp only [Option.map_some, withoutSignatures,
        List.flatMap_map]
      rfl

/- Nor for the data of an index. -/
theorem inputsData_withoutSignatures
    (tx : BRTransaction UInt256)
    (i sigHash : Nat) :
    tx.withoutSignatures.inputsData (some i) sigHash =
      tx.inputsData (some i) sigHash := by
  unfold inputsData withoutSignatures
  refine congrArg fields (List.mapIdx_eq_iff.mpr ?_)
  intro j
  rw [List.getElem?_mapIdx, List.getElem?_map, Option.map_map]
  refine congrFun (congrArg Option.map ?_) _
  funext input
  refine congrArg txInputData ?_
  unfold signingInput
  by_cases hIndex : some i = some j
  · rw [if_pos hIndex, if_pos hIndex]
    rfl
  · simp only [if_neg hIndex, reduceCtorEq, false_and, if_false,
      ne_eq, not_false_eq_true, if_true]
    rfl

theorem transactionData_withoutSignatures
    (sha256_2 : List UInt8 → UInt256)
    (tx : BRTransaction UInt256)
    (i hashType : Nat) :
    tx.withoutSignatures.transactionData sha256_2 (some i)
        hashType =
      tx.transactionData sha256_2 (some i) hashType := by
  unfold transactionData
  simp only [witnessData_withoutSignatures,
    inputsData_withoutSignatures, Option.bind_some,
    getElem?_withoutSignatures, Option.map_map]
  have hLength :
      tx.withoutSignatures.inputs.length = tx.inputs.length :=
    List.length_map _
  rw [hLength]
  rfl

------------------------------------------------------------
-- Signing
------------------------------------------------------------

/-
  What signing takes from the keys: the one for a script, and
  the script that it makes of a digest.
-/
structure Signer (Key : Type) where
  keyFor : List UInt8 → Option Key
  scriptSig : Key → List UInt8 → UInt256 → List UInt8

/- The digest that is signed for an input. -/
def digest
    (sha256_2 : List UInt8 → UInt256)
    (tx : BRTransaction UInt256)
    (i hashType : Nat) : UInt256 :=
  sha256_2 (tx.transactionData sha256_2 (some i) hashType).bytes

variable {Key : Type}

/- One round of the loop of `BRTransactionSign`. -/
def signInput
    (sha256_2 : List UInt8 → UInt256)
    (signer : Signer Key)
    (forkId : Nat)
    (tx : BRTransaction UInt256)
    (i : Nat) : BRTransaction UInt256 :=
  match tx.inputs[i]? with
  | none => tx
  | some input =>
      match signer.keyFor input.script with
      | none => tx
      | some key =>
          let md :=
            tx.digest sha256_2 i (forkId ||| SIGHASH_ALL)
          let script := signer.scriptSig key input.script md
          { tx with
            inputs :=
              tx.inputs.set i
                { input with signature := some script } }

/- The rounds in some order; the loop counts upwards. -/
def signInputs
    (sha256_2 : List UInt8 → UInt256)
    (signer : Signer Key)
    (forkId : Nat)
    (tx : BRTransaction UInt256)
    (order : List Nat) : BRTransaction UInt256 :=
  order.foldl (signInput sha256_2 signer forkId) tx

theorem withoutSignatures_signInput
    (sha256_2 : List UInt8 → UInt256)
    (signer : Signer Key)
    (forkId : Nat)
    (tx : BRTransaction UInt256)
    (i : Nat) :
    (signInput sha256_2 signer forkId tx i).withoutSignatures =
      tx.withoutSignatures := by
  unfold signInput
  cases hInput : tx.inputs[i]? with
  | none => rfl
  | some input =>
      dsimp only
      cases signer.keyFor input.script with
      | none => rfl
      | some key =>
          have hSame : (tx.inputs.map unsigned)[i]? =
              some (unsigned input) := by
            rw [List.getElem?_map, hInput, Option.map_some]
          rcases List.getElem?_eq_some_iff.mp hSame with
            ⟨hInside, hGet⟩
          unfold withoutSignatures
          dsimp only
          rw [List.map_set]
          have hSet :
              (tx.inputs.map unsigned).set i (unsigned input) =
                tx.inputs.map unsigned := by
            rw [← hGet, List.set_getElem_self]
          exact
            congrArg
              (fun inputs => { tx with inputs := inputs }) hSet

theorem withoutSignatures_signInputs
    (sha256_2 : List UInt8 → UInt256)
    (signer : Signer Key)
    (forkId : Nat)
    (tx : BRTransaction UInt256)
    (order : List Nat) :
    (signInputs sha256_2 signer forkId tx
        order).withoutSignatures =
      tx.withoutSignatures := by
  induction order generalizing tx with
  | nil => rfl
  | cons i order ih =>
      exact
        (ih _).trans
          (withoutSignatures_signInput sha256_2 signer forkId
            tx i)

/- The digests do not depend on what was signed before. -/
theorem digest_signInputs
    (sha256_2 : List UInt8 → UInt256)
    (signer : Signer Key)
    (forkId : Nat)
    (tx : BRTransaction UInt256)
    (order : List Nat)
    (i hashType : Nat) :
    (signInputs sha256_2 signer forkId tx order).digest sha256_2
        i hashType =
      tx.digest sha256_2 i hashType := by
  unfold digest
  rw [← transactionData_withoutSignatures,
    withoutSignatures_signInputs,
    transactionData_withoutSignatures]

------------------------------------------------------------
-- The References
------------------------------------------------------------

/-
  The data for an index is that of the references, and no
  signature that is there already changes it.
-/
structure ReferencePreimages
    (sha256_2 : List UInt8 → UInt256)
    (tx : BRTransaction UInt256)
    (i : Nat)
    (input : BRTxInput UInt256) : Prop where
  witness :
    ∀ hashType,
      Writes (tx.witnessData sha256_2 (some i) hashType)
        (bip143Preimage sha256_2 tx i input hashType)
  legacy :
    ∀ hashType, HasLegacyPreimage tx i hashType →
      Writes (tx.transactionData sha256_2 (some i) hashType)
        (legacyPreimage tx i hashType)
  independent :
    ∀ other : BRTransaction UInt256,
      other.withoutSignatures = tx.withoutSignatures →
        ∀ hashType,
          other.witnessData sha256_2 (some i) hashType =
              tx.witnessData sha256_2 (some i) hashType ∧
            other.transactionData sha256_2 (some i) hashType =
              tx.transactionData sha256_2 (some i) hashType
  order :
    ∀ (Key : Type) (signer : Signer Key) (forkId : Nat)
      (order : List Nat) (hashType : Nat),
      (signInputs sha256_2 signer forkId tx order).digest
          sha256_2 i hashType =
        tx.digest sha256_2 i hashType

/- The data is that of the references unless the value is 0. -/
theorem referencePreimages_iff
    (sha256_2 : List UInt8 → UInt256)
    {tx : BRTransaction UInt256}
    {i : Nat}
    {input : BRTxInput UInt256}
    (hInput : tx.inputs[i]? = some input) :
    ReferencePreimages sha256_2 tx i input ↔
      input.amount ≠ 0 := by
  have hWrites := writes_witnessData sha256_2 hInput
  constructor
  · intro hReference hZero
    have hWritten := (hWrites SIGHASH_ALL).null
    rw [(hReference.witness SIGHASH_ALL).null] at hWritten
    have hLength := congrArg Prod.fst hWritten
    simp only [bip143Preimage, witnessPreimage, shownValue,
      if_neg (not_not.mpr hZero), List.length_append,
      length_littleEndian, List.length_nil] at hLength
    omega
  · intro hValue
    refine ⟨?_, ?_, ?_, ?_⟩
    · intro hashType
      have hData := hWrites hashType
      rw [shownValue, if_pos hValue] at hData
      exact hData
    · intro hashType hLegacy
      exact writes_transactionData sha256_2 hInput hLegacy
    · intro other hSame hashType
      constructor
      · rw [← witnessData_withoutSignatures, hSame,
          witnessData_withoutSignatures]
      · rw [← transactionData_withoutSignatures, hSame,
          transactionData_withoutSignatures]
    · intro Key signer forkId order hashType
      exact
        digest_signInputs sha256_2 signer forkId tx order i
          hashType

/- A transaction with one input, of some value. -/
def spending (amount : UInt64) : BRTransaction UInt256 :=
  { new with
    inputs :=
      [{ txHash := 0
         index := 0
         amount := amount
         script := [0x51]
         signature := none
         sequence := TXIN_SEQUENCE }] }

theorem spending_referencePreimages :
    ∃ input, (spending 1).inputs[0]? = some input ∧
      ReferencePreimages (fun _ => 0) (spending 1) 0 input := by
  refine ⟨_, rfl, (referencePreimages_iff _ rfl).mpr ?_⟩
  decide

theorem spending_zero_not_referencePreimages :
    ∃ input, (spending 0).inputs[0]? = some input ∧
      ¬ ReferencePreimages (fun _ => 0) (spending 0) 0 input := by
  refine ⟨_, rfl, ?_⟩
  intro hReference
  have hNull := (hReference.witness SIGHASH_ALL).null
  revert hNull
  decide +kernel

end BRTransaction

end PlusWallet
