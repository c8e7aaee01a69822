import PlusWallet.Ethereum.Transactions

/-
  Signed transactions: which of them come back of their bytes.

  Main declarations:
    * `Ethereum.Kept`, `Ethereum.RoundTrips`
    * `Ethereum.transaction_roundTrip_iff`
-/

namespace PlusWallet

open Bytes Rlp BRUtilHex BRUtilMath

namespace Ethereum

------------------------------------------------------------
-- Reading Signatures
------------------------------------------------------------

variable {coder : BRRlpCoder}
variable {network : BREthereumNetwork}

/- Bytes for an array of another size fail an assertion. -/
theorem fixedRlpDecode_of_reads
    {item : BRRlpItem}
    {bytes : List UInt8}
    (hReads : Reads coder item (.leaf bytes)) :
    fixedRlpDecode 32 item coder =
      if hSize : bytes.length = 32 then some ⟨bytes, hSize⟩
      else none := by
  unfold fixedRlpDecode
  rw [hReads.leaf.2]
  rfl

/- The `v` that stands behind an item of a signed form. -/
def vOf
    (network : BREthereumNetwork)
    (eipChainId : UInt64) : UInt8 :=
  (if 30 < eipChainId.toNat then
      eipChainId - 8 - UInt64.ofNat (2 * network.chainId)
    else eipChainId).toUInt8

/- A chain id that is doubled in the type `int` -/
def Doubles (network : BREthereumNetwork) : Prop :=
  2 * network.chainId < 2 ^ 31

instance (network : BREthereumNetwork) :
    Decidable (Doubles network) :=
  inferInstanceAs (Decidable (2 * network.chainId < 2 ^ 31))

/- What the items of a signature are read as. -/
theorem decodeSignature_eq
    {item6 item7 item8 : BRRlpItem}
    {eipChainId : UInt64}
    {r s : List UInt8}
    (hV :
      Reads coder item6 (.leaf (uint64Bytes eipChainId true)))
    (hR : Reads coder item7 (.leaf r))
    (hS : Reads coder item8 (.leaf s))
    (hSigned : eipChainId ≠ UInt64.ofNat network.chainId) :
    decodeSignature network item6 item7 item8 coder =
      if 30 < eipChainId.toNat ∧ ¬ Doubles network then none
      else if hSize : r.length = 32 ∧ s.length = 32 then
        some
          (some
            { type := .recoverable
              v := vOf network eipChainId
              r := ⟨r, hSize.1⟩
              s := ⟨s, hSize.2⟩ })
      else none := by
  unfold decodeSignature Doubles
  rw [hV.uint64Bytes, Option.bind_eq_bind, Option.bind_some,
    if_neg hSigned]
  simp only [not_lt]
  by_cases hOverflow :
      30 < eipChainId.toNat ∧ 2 ^ 31 ≤ 2 * network.chainId
  · rw [if_pos hOverflow, if_pos hOverflow]
  · rw [if_neg hOverflow, if_neg hOverflow,
      fixedRlpDecode_of_reads hR, fixedRlpDecode_of_reads hS]
    by_cases hSizeR : r.length = 32
    · by_cases hSizeS : s.length = 32
      · rw [dif_pos hSizeR, dif_pos hSizeS,
          dif_pos ⟨hSizeR, hSizeS⟩]
        rfl
      · have hBoth : ¬ (r.length = 32 ∧ s.length = 32) :=
          fun hSize => hSizeS hSize.2
        rw [dif_pos hSizeR, dif_neg hSizeS, dif_neg hBoth]
        rfl
    · have hBoth : ¬ (r.length = 32 ∧ s.length = 32) :=
        fun hSize => hSizeR hSize.1
      rw [dif_neg hSizeR, dif_neg hBoth]
      rfl

theorem eip155V_eq_some_iff
    {v : UInt8}
    {eipChainId : UInt64} :
    eip155V v network = some eipChainId ↔
      v.toNat + 8 + 2 * network.chainId < 2 ^ 31 ∧
        eipChainId =
          UInt64.ofNat (v.toNat + 8 + 2 * network.chainId) := by
  unfold eip155V
  by_cases hFits :
      v.toNat + 8 + 2 * network.chainId < 2 ^ 31
  · rw [if_pos hFits, Option.some.injEq, eq_comm]
    exact ⟨fun hSame => ⟨hFits, hSame⟩, And.right⟩
  · rw [if_neg hFits]
    constructor
    · intro hNone
      cases hNone
    · intro hBoth
      exact absurd hBoth.1 hFits

/- The item of a signed form is not that of an unsigned one. -/
theorem eip155_ne
    (v : UInt8)
    (hFits : v.toNat + 8 + 2 * network.chainId < 2 ^ 64) :
    UInt64.ofNat (v.toNat + 8 + 2 * network.chainId) ≠
      UInt64.ofNat network.chainId := by
  intro hSame
  have hNumbers := congrArg UInt64.toNat hSame
  rw [UInt64.toNat_ofNat', UInt64.toNat_ofNat',
    Nat.mod_eq_of_lt hFits, Nat.mod_eq_of_lt (by omega)]
    at hNumbers
  omega

/- Taking the chain id out again leaves `v`. -/
theorem vOf_eip155
    {v : UInt8}
    (hV : v = 27 ∨ v = 28)
    (hFits : v.toNat + 8 + 2 * network.chainId < 2 ^ 31) :
    vOf network
        (UInt64.ofNat (v.toNat + 8 + 2 * network.chainId)) =
      v := by
  have hLow : 27 ≤ v.toNat := by
    rcases hV with rfl | rfl <;> decide
  have hNumber :
      (UInt64.ofNat
          (v.toNat + 8 + 2 * network.chainId)).toNat =
        v.toNat + 8 + 2 * network.chainId := by
    rw [UInt64.toNat_ofNat', Nat.mod_eq_of_lt (by omega)]
  have hDouble :
      (UInt64.ofNat (2 * network.chainId)).toNat =
        2 * network.chainId := by
    rw [UInt64.toNat_ofNat', Nat.mod_eq_of_lt (by omega)]
  have hEight : (8 : UInt64).toNat = 8 := rfl
  have hSmall := v.toNat_lt
  unfold vOf
  rw [hNumber, if_pos (by omega), ← UInt8.toNat_inj,
    UInt64.toNat_toUInt8, UInt64.toNat_sub, UInt64.toNat_sub,
    hNumber, hDouble, hEight]
  omega

------------------------------------------------------------
-- Reading Transactions
------------------------------------------------------------

section Recovery

variable (BRKeccak256 : List UInt8 → UInt256)
variable
  (BRKeyRecoverPubKey :
    UInt256 → List UInt8 → Option (List.Vector UInt8 64))
variable {tokens : List BREthereumToken}

/- A decoded token transfer has lost its data. -/
theorem decodeTransfer_cases
    {item3 item4 item5 : BRRlpItem}
    {transfer : Transfer}
    (hDecode :
      decodeTransfer tokens item3 item4 item5 coder =
        some (some transfer)) :
    (∃ value, transfer.amount = .ether value) ∨
      transfer.data = none := by
  unfold decodeTransfer at hDecode
  rw [Option.bind_eq_bind, Option.bind_eq_some_iff] at hDecode
  rcases hDecode with ⟨strData, -, hDecode⟩
  by_cases hEther : strData = [] ∨ strData = cString "0x"
  · left
    rw [if_pos hEther] at hDecode
    simp only [Option.bind_eq_bind, Option.bind_eq_some_iff,
      amountRlpDecodeAsEther] at hDecode
    rcases hDecode with
      ⟨target, -, amount, ⟨value, -, hAmount⟩, hSame⟩
    cases hSame
    cases hAmount
    exact ⟨value, rfl⟩
  · right
    rw [if_neg hEther] at hDecode
    simp only [Option.bind_eq_bind, Option.bind_eq_some_iff]
      at hDecode
    rcases hDecode with ⟨_, -, contract, -, hDecode⟩
    split at hDecode
    · simp only [Option.bind_eq_some_iff] at hDecode
      rcases hDecode with
        ⟨⟨status, number⟩, -, receiver, -, hDecode⟩
      by_cases hStatus : status = .ok
      · rw [if_pos hStatus] at hDecode
        cases hDecode
        rfl
      · rw [if_neg hStatus] at hDecode
        cases hDecode
    · cases hDecode

theorem transactionRlpDecodeItem_cases
    {item : BRRlpItem}
    {transaction : BREthereumTransaction}
    (hDecode :
      transactionRlpDecodeItem BRKeccak256 BRKeyRecoverPubKey
          tokens network item coder =
        some (some transaction)) :
    (∃ value, transaction.amount = .ether value) ∨
      transaction.data = none := by
  unfold transactionRlpDecodeItem at hDecode
  rw [Option.bind_eq_bind, Option.bind_eq_some_iff] at hDecode
  rcases hDecode with ⟨items, -, hDecode⟩
  split at hDecode
  · simp only [Option.bind_eq_bind, Option.bind_eq_some_iff]
      at hDecode
    rcases hDecode with
      ⟨nonce, -, gasPrice, -, gasLimit, -, found, hTransfer,
        hDecode⟩
    cases found with
    | none => cases hDecode
    | some transfer =>
        have hCases := decodeTransfer_cases hTransfer
        simp only [Option.bind_eq_some_iff] at hDecode
        rcases hDecode with ⟨signature, -, hDecode⟩
        cases signature with
        | none =>
            cases hDecode
            exact hCases
        | some signature =>
            simp only [Option.bind_eq_some_iff] at hDecode
            rcases hDecode with ⟨source, -, hDecode⟩
            cases hDecode
            exact hCases
  · cases hDecode

/- Nine leaves are read field by field. -/
theorem transactionRlpDecodeItem_eq
    (tokens : List BREthereumToken)
    (network : BREthereumNetwork)
    {item : BRRlpItem}
    {nonce gasLimit eipChainId : UInt64}
    {gasPrice : UInt256}
    {address amount data r s : List UInt8}
    (hReads :
      Reads coder item
        (.node
          (List.map .leaf
            [uint64Bytes nonce true, uint256Bytes gasPrice true,
              uint64Bytes gasLimit true, address, amount, data,
              uint64Bytes eipChainId true, r, s]))) :
    ∃ item3 item4 item5 item6 item7 item8,
      Reads coder item3 (.leaf address) ∧
        Reads coder item4 (.leaf amount) ∧
        Reads coder item5 (.leaf data) ∧
        Reads coder item6
          (.leaf (uint64Bytes eipChainId true)) ∧
        Reads coder item7 (.leaf r) ∧
        Reads coder item8 (.leaf s) ∧
        ∀ transfer signature,
          decodeTransfer tokens item3 item4 item5 coder =
              some (some transfer) →
            decodeSignature network item6 item7 item8 coder =
                signature →
              transactionRlpDecodeItem BRKeccak256
                  BRKeyRecoverPubKey tokens network item coder =
                signature.bind fun signature =>
                  match signature with
                  | none =>
                      some
                        (some
                          { sourceAddress := none
                            targetAddress :=
                              transfer.targetAddress
                            amount := transfer.amount
                            gasPrice := gasPrice
                            gasLimit := gasLimit
                            nonce := nonce
                            data := transfer.data
                            signature :=
                              { emptySignature with
                                type := .recoverable } })
                  | some signature =>
                      let transaction : BREthereumTransaction :=
                        { sourceAddress := none
                          targetAddress :=
                            transfer.targetAddress
                          amount := transfer.amount
                          gasPrice := gasPrice
                          gasLimit := gasLimit
                          nonce := nonce
                          data := transfer.data
                          signature := signature }
                      (transactionExtractAddress BRKeccak256
                          BRKeyRecoverPubKey transaction
                          network).map fun source =>
                        some
                          { transaction with
                            sourceAddress := source } := by
  rcases hReads.node with ⟨items, hItems, hAll⟩
  simp only [List.map_cons, List.map_nil] at hAll
  rcases hAll with _ | ⟨hNonce, _ | ⟨hPrice, _ | ⟨hGas,
    _ | ⟨hAddress, _ | ⟨hAmount, _ | ⟨hData, _ | ⟨hV,
      _ | ⟨hR, _ | ⟨hS, _ | _⟩⟩⟩⟩⟩⟩⟩⟩⟩
  refine
    ⟨_, _, _, _, _, _, hAddress, hAmount, hData, hV, hR, hS,
      ?_⟩
  intro transfer signature hTransfer hSignature
  unfold transactionRlpDecodeItem
  simp only [hItems, transactionDecodeNonce, gasPriceRlpDecode,
    etherRlpDecode, gasRlpDecode, hNonce.uint64Bytes,
    hPrice.uint256Bytes, hGas.uint64Bytes, hTransfer,
    hSignature, Option.bind_eq_bind, Option.bind_some]
  cases signature with
  | none => rfl
  | some signature =>
      cases signature with
      | none => rfl
      | some signature =>
          simp only [Option.bind_some]
          cases
            transactionExtractAddress BRKeccak256
              BRKeyRecoverPubKey _ network <;> rfl

------------------------------------------------------------
-- Signing
------------------------------------------------------------

variable {BRKey : Type}
variable
  (BRKeyCompactSign : BRKey → UInt256 → List.Vector UInt8 65)

theorem hashOfBytes_take
    {bytes : List UInt8}
    (hLength : 32 ≤ bytes.length) :
    (hashOfBytes bytes).toList = bytes.take 32 := by
  apply List.ext_getElem
  · rw [List.Vector.toList_length, List.length_take]
    omega
  · intro i hi _
    rw [List.Vector.toList_length] at hi
    simp only [hashOfBytes, List.Vector.toList_ofFn,
      List.getElem_ofFn, List.getElem_take]
    exact List.getD_eq_getElem bytes 0 (by omega)

/- The fields of a signature are its bytes. -/
theorem signatureBytes_eq
    (privateKey : BRKey)
    (bytes : List UInt8) :
    (accountSignBytesWithPrivateKey BRKeccak256
          BRKeyCompactSign privateKey bytes).v ::
        ((accountSignBytesWithPrivateKey BRKeccak256
            BRKeyCompactSign privateKey bytes).r.toList ++
          (accountSignBytesWithPrivateKey BRKeccak256
            BRKeyCompactSign privateKey bytes).s.toList) =
      (BRKeyCompactSign privateKey
        (BRKeccak256 bytes)).toList := by
  have hLength :
      (BRKeyCompactSign privateKey
        (BRKeccak256 bytes)).toList.length = 65 :=
    List.Vector.toList_length _
  unfold accountSignBytesWithPrivateKey
  dsimp only
  generalize
    (BRKeyCompactSign privateKey (BRKeccak256 bytes)).toList =
      all at hLength ⊢
  cases all with
  | nil => cases hLength
  | cons first rest =>
      rw [List.length_cons] at hLength
      rw [hashOfBytes_take
          (by rw [List.length_drop, List.length_cons]; omega),
        hashOfBytes_take
          (by rw [List.length_drop, List.length_cons]; omega)]
      have hLast : (rest.drop 32).take 32 = rest.drop 32 := by
        apply List.take_of_length_le
        rw [List.length_drop]
        omega
      simp only [List.headD_cons, List.drop_succ_cons,
        List.drop_zero, hLast, List.take_append_drop]

/- What a wallet signs, and what it adds. -/
theorem walletSignTransaction_cases
    {addressNonce : UInt64}
    {privateKey : BRKey}
    {transaction signed : BREthereumTransaction}
    (hSign :
      walletSignTransaction BRKeccak256 BRKeyCompactSign network
          addressNonce privateKey transaction =
        some signed) :
    ∃ nonce bytes,
      transactionEncodeRLP
          { transaction with nonce := nonce } network
          .unsigned =
        some bytes ∧
      signed =
        { transaction with
          nonce := nonce
          signature :=
            accountSignBytesWithPrivateKey BRKeccak256
              BRKeyCompactSign privateKey bytes } ∧
      (signed.signature.v = 27 ∨ signed.signature.v = 28) := by
  unfold walletSignTransaction transactionSign at hSign
  dsimp only at hSign
  rw [Option.bind_eq_bind, Option.bind_eq_some_iff] at hSign
  rcases hSign with ⟨bytes, hBytes, hSign⟩
  refine ⟨_, bytes, hBytes, ?_⟩
  by_cases hType :
      (accountSignBytesWithPrivateKey BRKeccak256
            BRKeyCompactSign privateKey bytes).type =
          .recoverable ∧
        ((accountSignBytesWithPrivateKey BRKeccak256
              BRKeyCompactSign privateKey bytes).v = 27 ∨
          (accountSignBytesWithPrivateKey BRKeccak256
              BRKeyCompactSign privateKey bytes).v = 28)
  · rw [if_pos hType] at hSign
    cases hSign
    exact ⟨rfl, hType.2⟩
  · rw [if_neg hType] at hSign
    cases hSign

------------------------------------------------------------
-- Round Trips
------------------------------------------------------------

/- Transactions of the same bytes have the same data. -/
theorem data_of_encodeRLP
    {first second : BREthereumTransaction}
    {firstData secondData bytes : List UInt8}
    {type : BREthereumTransactionRLPType}
    (hFirstData : dataBytes first.data = some firstData)
    (hFirstShort : firstData.length < 2 ^ 20)
    (hSecondData : dataBytes second.data = some secondData)
    (hSecondShort : secondData.length < 2 ^ 20)
    (hFirst :
      transactionEncodeRLP first network type = some bytes)
    (hSecond :
      transactionEncodeRLP second network type = some bytes) :
    firstData = secondData := by
  rw [transactionEncodeRLP_eq hFirstData hFirstShort,
    Option.map_eq_some_iff] at hFirst
  rw [transactionEncodeRLP_eq hSecondData hSecondShort,
    Option.map_eq_some_iff] at hSecond
  rcases hFirst with ⟨leaves, hLeaves, hBytes⟩
  rcases hSecond with ⟨others, hOthers, hSame⟩
  have hStored :=
    stored_transactionLeaves hFirstData hFirstShort hLeaves
  have hOther :=
    stored_transactionLeaves hSecondData hSecondShort hOthers
  have hMemory := hStored
  rw [Stored] at hMemory
  have hTrees :=
    encoding_injective hMemory.2.1 hStored hOther
      (hBytes.trans hSame.symm)
  rw [RlpTree.node.injEq] at hTrees
  have hEqual : leaves = others := by
    apply List.map_injective_iff.mpr _ hTrees
    intro left right hLeaf
    cases hLeaf
    rfl
  subst hEqual
  unfold transactionLeaves at hLeaves hOthers
  simp only [Option.bind_eq_bind, Option.bind_eq_some_iff,
    hFirstData, hSecondData, Option.some.injEq]
    at hLeaves hOthers
  rcases hLeaves with ⟨_, -, _, rfl, _, -, rfl⟩
  rcases hOthers with ⟨_, -, _, rfl, _, -, hAll⟩
  simp only [List.cons_append, List.nil_append,
    List.cons.injEq] at hAll
  exact hAll.2.2.2.2.2.1.symm

/- What a decoded transaction keeps of a signed one. -/
structure Kept
    (signer : BREthereumAddress)
    (signed decoded : BREthereumTransaction) : Prop where
  nonce : decoded.nonce = signed.nonce
  gasPrice : decoded.gasPrice = signed.gasPrice
  gasLimit : decoded.gasLimit = signed.gasLimit
  target :
    decoded.targetAddress.map addressBytes =
      signed.targetAddress.map addressBytes
  amount : decoded.amount = signed.amount
  v : decoded.signature.v = signed.signature.v
  r : decoded.signature.r = signed.signature.r
  s : decoded.signature.s = signed.signature.s
  source : decoded.sourceAddress = some signer

/- A signed transaction comes back, and has the same bytes. -/
def RoundTrips
    (tokens : List BREthereumToken)
    (network : BREthereumNetwork)
    (signer : BREthereumAddress)
    (signed : BREthereumTransaction) : Prop :=
  ∃ data decoded,
    transactionEncodeRLP signed network .signed = some data ∧
      transactionDecodeRLP BRKeccak256 BRKeyRecoverPubKey
          tokens network data =
        some (some decoded) ∧
      Kept signer signed decoded ∧
      transactionEncodeRLP decoded network .signed = some data

/- A transfer of ether. -/
def etherTransaction
    (source : Option BREthereumAddress)
    (target : BREthereumAddress)
    (value gasPrice : UInt256)
    (gasLimit nonce : UInt64)
    (data : List UInt8)
    (signature : BREthereumSignature) :
    BREthereumTransaction where
  sourceAddress := source
  targetAddress := some target
  amount := .ether value
  gasPrice := gasPrice
  gasLimit := gasLimit
  nonce := nonce
  data := some data
  signature := signature

/- The leaves of a transfer of ether, with its signature. -/
def etherLeaves
    (target : BREthereumAddress)
    (value gasPrice : UInt256)
    (gasLimit nonce : UInt64)
    (signature : List (List UInt8)) : List (List UInt8) :=
  [uint64Bytes nonce true, uint256Bytes gasPrice true,
      uint64Bytes gasLimit true, addressBytes target,
      uint256Bytes value true, []] ++
    signature

section Ether

variable {source : Option BREthereumAddress}
variable {target : BREthereumAddress}
variable {value gasPrice : UInt256}
variable {gasLimit nonce : UInt64}
variable {data : List UInt8}
variable {signature : BREthereumSignature}

theorem transactionLeaves_ether
    (hData : dataBytes (some data) = some [])
    (network : BREthereumNetwork)
    (type : BREthereumTransactionRLPType) :
    transactionLeaves
        (etherTransaction source target value gasPrice gasLimit
          nonce data signature)
        network type =
      (signatureLeaves signature network type).map
        (etherLeaves target value gasPrice gasLimit nonce) := by
  unfold transactionLeaves recipient amountBytes
    etherTransaction etherLeaves
  simp only [hData, Option.bind_eq_bind, Option.bind_some]
  cases signatureLeaves signature network type <;> rfl

theorem transactionEncodeRLP_ether
    (hData : dataBytes (some data) = some [])
    (network : BREthereumNetwork)
    (type : BREthereumTransactionRLPType) :
    transactionEncodeRLP
        (etherTransaction source target value gasPrice gasLimit
          nonce data signature)
        network type =
      (signatureLeaves signature network type).map
        fun leaves =>
          encoding
            (.node
              ((etherLeaves target value gasPrice gasLimit nonce
                leaves).map .leaf)) := by
  rw [transactionEncodeRLP_eq
      (show
        dataBytes
            (etherTransaction source target value gasPrice
              gasLimit nonce data signature).data =
          some [] from hData)
      (Nat.two_pow_pos 20),
    transactionLeaves_ether hData]
  cases signatureLeaves signature network type <;> rfl

theorem stored_etherLeaves
    {network : BREthereumNetwork}
    {type : BREthereumTransactionRLPType}
    {leaves : List (List UInt8)}
    (hLeaves :
      signatureLeaves signature network type = some leaves)
    (target : BREthereumAddress)
    (value gasPrice : UInt256)
    (gasLimit nonce : UInt64) :
    Stored
      (.node
        ((etherLeaves target value gasPrice gasLimit nonce
          leaves).map .leaf)) := by
  have hEmpty : dataBytes (some []) = some [] := by decide
  apply
    stored_transactionLeaves
      (show
        dataBytes
            (etherTransaction none target value gasPrice gasLimit
              nonce [] signature).data =
          some [] from hEmpty)
      (Nat.two_pow_pos 20)
  rw [transactionLeaves_ether hEmpty, hLeaves]
  rfl

theorem signatureLeaves_signed
    {network : BREthereumNetwork}
    (hFits :
      signature.v.toNat + 8 + 2 * network.chainId < 2 ^ 31) :
    signatureLeaves signature network .signed =
      some
        [uint64Bytes
            (UInt64.ofNat
              (signature.v.toNat + 8 + 2 * network.chainId))
            true,
          signature.r.toList, signature.s.toList] := by
  unfold signatureLeaves
  dsimp only
  rw [eip155V_eq_some_iff.mpr ⟨hFits, rfl⟩]
  rfl

/- The signed form of a transfer of ether is read back. -/
theorem decode_ether
    (tokens : List BREthereumToken)
    (hType : signature.type = .recoverable)
    (hV : signature.v = 27 ∨ signature.v = 28)
    (hFits :
      signature.v.toNat + 8 + 2 * network.chainId < 2 ^ 31)
    (target : BREthereumAddress)
    (value gasPrice : UInt256)
    (gasLimit nonce : UInt64) :
    ∃ found,
      addressBytes found = addressBytes target ∧
        transactionDecodeRLP BRKeccak256 BRKeyRecoverPubKey
            tokens network
            (encoding
              (.node
                ((etherLeaves target value gasPrice gasLimit
                  nonce
                  [uint64Bytes
                      (UInt64.ofNat
                        (signature.v.toNat + 8 +
                          2 * network.chainId))
                      true,
                    signature.r.toList,
                    signature.s.toList]).map .leaf))) =
          (transactionExtractAddress BRKeccak256
              BRKeyRecoverPubKey
              (etherTransaction none found value gasPrice
                gasLimit nonce (cString "0x") signature)
              network).map fun source =>
            some
              (etherTransaction source found value gasPrice
                gasLimit nonce (cString "0x") signature) := by
  have hStored :=
    stored_etherLeaves (signatureLeaves_signed hFits) target
      value gasPrice gasLimit nonce
  have hMemory := hStored
  rw [Stored] at hMemory
  rcases decodeRLP_encoding hMemory.2.1 hStored with
    ⟨item, coder, hReads, hDecode⟩
  rcases transactionRlpDecodeItem_eq BRKeccak256
      BRKeyRecoverPubKey tokens network hReads with
    ⟨item3, item4, item5, item6, item7, item8, hAddress,
      hAmount, hNoData, hItemV, hItemR, hItemS, hAll⟩
  rcases decodeTransfer_ether tokens hAddress hAmount hNoData
    with ⟨found, hTransfer, hFound⟩
  have hDoubles : Doubles network := by
    unfold Doubles
    omega
  have hSizes :
      signature.r.toList.length = 32 ∧
        signature.s.toList.length = 32 :=
    ⟨signature.r.toList_length, signature.s.toList_length⟩
  have hRead :=
    decodeSignature_eq hItemV hItemR hItemS
      (eip155_ne signature.v (by omega))
  rw [if_neg (fun hOverflow => hOverflow.2 hDoubles),
    dif_pos hSizes, vOf_eip155 hV hFits] at hRead
  refine ⟨found, hFound, ?_⟩
  unfold transactionDecodeRLP
  rw [hDecode, hAll _ _ hTransfer hRead]
  rcases signature with ⟨type, v, r, s⟩
  dsimp only at hType
  rw [hType]
  rfl

end Ether

variable {BRKeyRecoverPubKey}
variable {BRKeyCompactSign}
variable {publicKeyOf : BRKey → List.Vector UInt8 64}

/- The signer of a transfer of ether is found again. -/
theorem extract_ether
    (hRecover :
      ∀ privateKey digest,
        BRKeyRecoverPubKey digest
            (BRKeyCompactSign privateKey digest).toList =
          some (publicKeyOf privateKey))
    {source : Option BREthereumAddress}
    {target found : BREthereumAddress}
    (hFound : addressBytes found = addressBytes target)
    {value gasPrice : UInt256}
    {gasLimit nonce : UInt64}
    {privateKey : BRKey}
    {bytes : List UInt8}
    {unsigned signature : BREthereumSignature}
    (hBytes :
      transactionEncodeRLP
          (etherTransaction source target value gasPrice
            gasLimit nonce [] unsigned)
          network .unsigned =
        some bytes)
    (hSignature :
      signature =
        accountSignBytesWithPrivateKey BRKeccak256
          BRKeyCompactSign privateKey bytes)
    (hV : signature.v = 27 ∨ signature.v = 28) :
    transactionExtractAddress BRKeccak256 BRKeyRecoverPubKey
        (etherTransaction none found value gasPrice gasLimit
          nonce (cString "0x") signature)
        network =
      some
        (some
          (createAddressDerived BRKeccak256
            (publicKeyOf privateKey))) := by
  have hSigned :
      transactionIsSigned
          (etherTransaction none found value gasPrice gasLimit
            nonce (cString "0x") signature) =
        true := by
    have hType : signature.type = .recoverable := by
      rw [hSignature]
      rfl
    unfold transactionIsSigned etherTransaction
    dsimp only
    rw [hType]
    rcases hV with hSame | hSame <;> rw [hSame] <;> rfl
  have hAgain :
      transactionEncodeRLP
          (etherTransaction none found value gasPrice gasLimit
            nonce (cString "0x") signature)
          network .unsigned =
        some bytes := by
    rw [transactionEncodeRLP_ether (by decide)] at hBytes ⊢
    unfold etherLeaves at hBytes ⊢
    rw [hFound]
    exact hBytes
  unfold transactionExtractAddress
  rw [if_pos hSigned, hAgain, Option.bind_eq_bind,
    Option.bind_some]
  unfold etherTransaction signatureExtractAddress
  dsimp only
  rw [hSignature, signatureBytes_eq, hRecover]
  rfl

/- The data of a token transfer are not empty. -/
theorem dataBytes_token
    {target : BREthereumAddress}
    {token : BREthereumToken}
    {value : UInt256}
    {data : List UInt8}
    (hData :
      provideData target (.token token value) = some data) :
    dataBytes (some data) =
      some (transferBytes target value) := by
  unfold provideData at hData
  dsimp only at hData
  rw [contractEncode_eq, Option.some.injEq] at hData
  rw [← hData]
  exact dataBytes_transfer target value

/- A transaction that came back is a transfer of ether. -/
theorem ether_of_roundTrips
    {signer target : BREthereumAddress}
    {amount : BREthereumAmount}
    {data : List UInt8}
    {signed : BREthereumTransaction}
    (hData : provideData target amount = some data)
    (hSignedData : signed.data = some data)
    (hAmount : signed.amount = amount)
    (hTrip :
      RoundTrips BRKeccak256 BRKeyRecoverPubKey tokens network
        signer signed) :
    ∃ value, amount = .ether value := by
  rcases hTrip with ⟨bytes, decoded, hSent, hDecode, hKept, hAgain⟩
  cases amount with
  | ether value => exact ⟨value, rfl⟩
  | token token value =>
      exfalso
      unfold transactionDecodeRLP decodeRLP at hDecode
      rw [Option.bind_eq_bind, Option.bind_eq_some_iff]
        at hDecode
      rcases hDecode with ⟨⟨item, coder⟩, -, hDecode⟩
      rcases transactionRlpDecodeItem_cases BRKeccak256
          BRKeyRecoverPubKey hDecode with ⟨other, hEther⟩ | hNone
      · rw [hKept.amount, hAmount] at hEther
        cases hEther
      · have hToken : dataBytes signed.data =
            some (transferBytes target value) := by
          rw [hSignedData]
          exact dataBytes_token hData
        have hEmpty : dataBytes decoded.data = some [] := by
          rw [hNone]
          rfl
        have hLength := length_transferBytes target value
        have hSame :=
          data_of_encodeRLP hToken (by omega) hEmpty
            (Nat.two_pow_pos 20) hSent hAgain
        rw [hSame] at hLength
        cases hLength

/- A signed form is there only if its `v` is an `int`. -/
theorem fits_of_encodeRLP
    {signed : BREthereumTransaction}
    {bytes : List UInt8}
    (hSent :
      transactionEncodeRLP signed network .signed =
        some bytes) :
    signed.signature.v.toNat + 8 + 2 * network.chainId <
      2 ^ 31 := by
  unfold transactionEncodeRLP encodeRLP at hSent
  rw [transactionRlpEncodeItem_eq] at hSent
  unfold transactionLeaves signatureLeaves at hSent
  simp only [Option.bind_eq_bind, Option.bind_eq_some_iff]
    at hSent
  rcases hSent with
    ⟨_, ⟨_, ⟨_, -, _, -, _, ⟨v, hV, -⟩, -⟩, -⟩, -⟩
  exact (eip155V_eq_some_iff.mp hV).1

/-
  A signed transfer comes back exactly when it is one of ether
  and its `v` is an `int`.
-/
theorem transaction_roundTrip_iff
    (hRecover :
      ∀ privateKey digest,
        BRKeyRecoverPubKey digest
            (BRKeyCompactSign privateKey digest).toList =
          some (publicKeyOf privateKey))
    (tokens : List BREthereumToken)
    (network : BREthereumNetwork)
    {source target : BREthereumAddress}
    {amount : BREthereumAmount}
    {gasPrice : UInt256}
    {gasLimit nonce addressNonce : UInt64}
    {privateKey : BRKey}
    {created signed : BREthereumTransaction}
    (hCreate :
      transactionCreate source target amount gasPrice gasLimit
          nonce =
        some created)
    (hSign :
      walletSignTransaction BRKeccak256 BRKeyCompactSign network
          addressNonce privateKey created =
        some signed) :
    RoundTrips BRKeccak256 BRKeyRecoverPubKey tokens network
        (createAddressDerived BRKeccak256
          (publicKeyOf privateKey))
        signed ↔
      (∃ value, amount = .ether value) ∧
        signed.signature.v.toNat + 8 + 2 * network.chainId <
          2 ^ 31 := by
  rcases walletSignTransaction_cases BRKeccak256
      BRKeyCompactSign hSign with
    ⟨nonce, bytes, hBytes, hSigned, hV⟩
  unfold transactionCreate at hCreate
  rw [Option.bind_eq_bind, Option.bind_eq_some_iff] at hCreate
  rcases hCreate with ⟨data, hData, hCreate⟩
  cases hCreate
  constructor
  · intro hTrip
    have hSignedData : signed.data = some data := by
      rw [hSigned]
    have hAmount : signed.amount = amount := by
      rw [hSigned]
    refine
      ⟨ether_of_roundTrips BRKeccak256 hData hSignedData
          hAmount hTrip,
        ?_⟩
    rcases hTrip with ⟨sent, decoded, hSent, -⟩
    exact fits_of_encodeRLP hSent
  · rintro ⟨⟨value, rfl⟩, hFits⟩
    cases hData
    have hType : signed.signature.type = .recoverable := by
      rw [hSigned]
      rfl
    have hSame :
        signed =
          etherTransaction (some source) target value gasPrice
            gasLimit nonce [] signed.signature := by
      rw [hSigned]
      rfl
    have hSignature :
        signed.signature =
          accountSignBytesWithPrivateKey BRKeccak256
            BRKeyCompactSign privateKey bytes := by
      rw [hSigned]
    clear hSigned hSign
    generalize signed.signature = signature at *
    subst hSame
    rcases decode_ether BRKeccak256 BRKeyRecoverPubKey tokens
        hType hV hFits target value gasPrice gasLimit nonce with
      ⟨found, hFound, hDecode⟩
    rw [extract_ether BRKeccak256 hRecover hFound hBytes
      hSignature hV] at hDecode
    refine ⟨_, _, ?_, hDecode, ?_, ?_⟩
    · rw [transactionEncodeRLP_ether (by decide),
        signatureLeaves_signed hFits]
      rfl
    · constructor <;> try rfl
      exact congrArg some hFound
    · rw [transactionEncodeRLP_ether (by decide),
        signatureLeaves_signed hFits]
      unfold etherLeaves
      rw [hFound]
      rfl

end Recovery

------------------------------------------------------------
-- A Signed Token Transfer
------------------------------------------------------------

section Example

/- A hash of which only the length matters. -/
def shortHash (bytes : List UInt8) : UInt256 :=
  hashOfBytes bytes.reverse

/- A signature that names its key and the digest. -/
def namedSign
    (privateKey : UInt256)
    (digest : UInt256) : List.Vector UInt8 65 :=
  ⟨27 :: (privateKey.toList ++ digest.toList), by
    rw [List.length_cons, List.length_append,
      privateKey.toList_length, digest.toList_length]⟩

def namedPublicKey (privateKey : UInt256) :
    List.Vector UInt8 64 :=
  ⟨privateKey.toList ++ privateKey.toList, by
    rw [List.length_append, privateKey.toList_length]⟩

/- The key that is named, if the digest is the right one. -/
def namedRecover
    (digest : UInt256)
    (signature : List UInt8) :
    Option (List.Vector UInt8 64) :=
  let privateKey := hashOfBytes (signature.drop 1)
  if signature = (namedSign privateKey digest).toList then
    some (namedPublicKey privateKey)
  else none

theorem namedRecover_namedSign
    (privateKey digest : UInt256) :
    namedRecover digest
        (namedSign privateKey digest).toList =
      some (namedPublicKey privateKey) := by
  have hKey :
      hashOfBytes
          ((namedSign privateKey digest).toList.drop 1) =
        privateKey := by
    apply List.Vector.eq
    rw [hashOfBytes_take]
    · exact List.take_left' privateKey.toList_length
    · rw [List.length_drop, List.Vector.toList_length]
      decide
  unfold namedRecover
  rw [hKey]
  exact if_pos rfl

def mainnet : BREthereumNetwork where
  chainId := 1
  isInt := by decide

def someAddress : BREthereumAddress where
  string :=
    cString "0x00000000000000000000000000000000000000a1"
  valid := by decide +kernel

def someToken : BREthereumToken where
  address :=
    cString "0x00000000000000000000000000000000000000b2"
  valid := by decide +kernel

def someKey : UInt256 := List.Vector.replicate 32 7

def someValue : UInt256 := hashOfBytes [5]

/- What a wallet makes of an amount. -/
def signedTransfer
    (amount : BREthereumAmount) :
    Option BREthereumTransaction := do
  let created ←
    transactionCreate someAddress someAddress amount someValue
      21000 3
  walletSignTransaction shortHash namedSign mainnet 3 someKey
    created

theorem transaction_roundTrip_transfer :
    ∃ signed,
      signedTransfer (.ether someValue) = some signed ∧
        RoundTrips shortHash namedRecover [someToken] mainnet
          (createAddressDerived shortHash
            (namedPublicKey someKey))
          signed := by
  have hSome :
      (signedTransfer (.ether someValue)).isSome = true := by
    decide +kernel
  rcases Option.isSome_iff_exists.mp hSome with
    ⟨signed, hSigned⟩
  have hTransfer := hSigned
  unfold signedTransfer at hTransfer
  rw [Option.bind_eq_bind, Option.bind_eq_some_iff] at hTransfer
  rcases hTransfer with ⟨created, hCreate, hSign⟩
  have hByte := signed.signature.v.toNat_lt
  refine
    ⟨signed, hSigned,
      (transaction_roundTrip_iff shortHash
        namedRecover_namedSign [someToken] mainnet hCreate
        hSign).mpr
        ⟨⟨someValue, rfl⟩, ?_⟩⟩
  have hChain : mainnet.chainId = 1 := rfl
  omega

/- A transfer of a token does not come back. -/
theorem token_not_roundTrip :
    ∃ signed,
      signedTransfer (.token someToken someValue) =
          some signed ∧
        ¬ RoundTrips shortHash namedRecover [someToken] mainnet
          (createAddressDerived shortHash
            (namedPublicKey someKey))
          signed := by
  have hSome :
      (signedTransfer
          (.token someToken someValue)).isSome =
        true := by
    decide +kernel
  rcases Option.isSome_iff_exists.mp hSome with
    ⟨signed, hSigned⟩
  have hTransfer := hSigned
  unfold signedTransfer at hTransfer
  rw [Option.bind_eq_bind, Option.bind_eq_some_iff] at hTransfer
  rcases hTransfer with ⟨created, hCreate, hSign⟩
  unfold transactionCreate at hCreate
  rw [Option.bind_eq_bind, Option.bind_eq_some_iff] at hCreate
  rcases hCreate with ⟨data, hData, hCreate⟩
  cases hCreate
  rcases walletSignTransaction_cases shortHash namedSign hSign
    with ⟨nonce, bytes, -, hSame, -⟩
  refine ⟨signed, hSigned, fun hTrip => ?_⟩
  rcases ether_of_roundTrips shortHash hData (by rw [hSame])
      (by rw [hSame]) hTrip with
    ⟨value, hEther⟩
  cases hEther

end Example

end Ethereum

end PlusWallet
