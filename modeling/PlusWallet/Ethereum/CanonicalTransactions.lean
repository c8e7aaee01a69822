import PlusWallet.Ethereum.SignedTransactions

/-
  Signed transactions in the canonical form, in which no number
  has a zero byte in front.

  Main declarations:
    * `Ethereum.canonicalTree`
    * `Ethereum.transaction_canonical_iff`
-/

namespace PlusWallet

open Bytes Rlp BRUtilHex BRUtilMath

namespace Ethereum

section Recovery

variable {network : BREthereumNetwork}
variable {coder : BRRlpCoder}
variable {tokens : List BREthereumToken}
variable (BRKeccak256 : List UInt8 → UInt256)
variable
  {BRKeyRecoverPubKey :
    UInt256 → List UInt8 → Option (List.Vector UInt8 64)}

------------------------------------------------------------
-- Canonical Forms
------------------------------------------------------------

/- The address, the value and the data that are to be sent. -/
def canonicalTransfer
    (target : BREthereumAddress) :
    BREthereumAmount → List (List UInt8)
  | .ether value =>
      [addressBytes target,
        natBytes (ofLittleEndian value.toList), []]
  | .token token value =>
      [addressBytes ⟨token.address, token.valid⟩, [],
        transferBytes target value]

/- The nine items of a signed form, with the bytes of `r`, `s` -/
def signedLeaves
    (network : BREthereumNetwork)
    (target : BREthereumAddress)
    (amount : BREthereumAmount)
    (gasPrice : UInt256)
    (gasLimit nonce : UInt64)
    (v : UInt8)
    (r s : List UInt8) : List (List UInt8) :=
  [natBytes nonce.toNat,
      natBytes (ofLittleEndian gasPrice.toList),
      natBytes gasLimit.toNat] ++
    canonicalTransfer target amount ++
    [natBytes (v.toNat + 8 + 2 * network.chainId), r, s]

/- The signed form with every number in its canonical bytes. -/
def canonicalTree
    (network : BREthereumNetwork)
    (target : BREthereumAddress)
    (amount : BREthereumAmount)
    (gasPrice : UInt256)
    (gasLimit nonce : UInt64)
    (signature : BREthereumSignature) : RlpTree :=
  .node
    ((signedLeaves network target amount gasPrice gasLimit nonce
      signature.v (natBytes (ofBigEndian signature.r.toList))
      (natBytes (ofBigEndian signature.s.toList))).map .leaf)

section Created

variable {source target : BREthereumAddress}
variable {amount : BREthereumAmount}
variable {gasPrice : UInt256}
variable {gasLimit nonce : UInt64}
variable {created : BREthereumTransaction}

theorem dataBytes_nil : dataBytes (some []) = some [] := by
  decide

theorem dataBytes_prefix :
    dataBytes (some (cString "0x")) = some [] := by
  decide

/- The data of a new transaction are short. -/
theorem dataBytes_created
    (hCreate :
      transactionCreate source target amount gasPrice gasLimit
          nonce =
        some created) :
    ∃ data,
      dataBytes created.data = some data ∧
        data.length < 2 ^ 20 := by
  unfold transactionCreate at hCreate
  rw [Option.bind_eq_bind, Option.bind_eq_some_iff] at hCreate
  rcases hCreate with ⟨data, hData, hCreate⟩
  cases hCreate
  cases amount with
  | ether value =>
      cases hData
      exact ⟨[], dataBytes_nil, Nat.two_pow_pos 20⟩
  | token token value =>
      refine ⟨_, dataBytes_token hData, ?_⟩
      rw [length_transferBytes]
      decide

theorem eip155_toNat
    (v : UInt8)
    (hFits : v.toNat + 8 + 2 * network.chainId < 2 ^ 31) :
    (UInt64.ofNat (v.toNat + 8 + 2 * network.chainId)).toNat =
      v.toNat + 8 + 2 * network.chainId := by
  rw [UInt64.toNat_ofNat', Nat.mod_eq_of_lt (by omega)]

/- The leaves of the signed form of a new transaction. -/
theorem transactionLeaves_created
    (hCreate :
      transactionCreate source target amount gasPrice gasLimit
          nonce =
        some created)
    {signature : BREthereumSignature}
    (hFits :
      signature.v.toNat + 8 + 2 * network.chainId < 2 ^ 31) :
    transactionLeaves { created with signature := signature }
        network .signed =
      some
        (signedLeaves network target amount gasPrice gasLimit
          nonce signature.v signature.r.toList
          signature.s.toList) := by
  unfold transactionCreate at hCreate
  rw [Option.bind_eq_bind, Option.bind_eq_some_iff] at hCreate
  rcases hCreate with ⟨data, hData, hCreate⟩
  cases hCreate
  have hBytes :
      dataBytes (some data) =
        some
          (match amount with
            | .ether _ => []
            | .token _ value => transferBytes target value) := by
    cases amount with
    | ether value =>
        cases hData
        exact dataBytes_nil
    | token token value => exact dataBytes_token hData
  unfold transactionLeaves recipient amountBytes
  rw [signatureLeaves_signed hFits]
  simp only [hBytes, uint64Bytes_eq_natBytes,
    uint256Bytes_eq_natBytes, eip155_toNat _ hFits]
  cases amount <;> rfl

/- The signer of a transfer without data is looked for. -/
theorem transactionExtractAddress_isSome
    (network : BREthereumNetwork)
    {transaction : BREthereumTransaction}
    (hData : dataBytes transaction.data = some [])
    (hRecipient :
      (∃ found, transaction.targetAddress = some found) ∨
        ∃ token number,
          transaction.amount = .token token number) :
    ∃ source,
      transactionExtractAddress BRKeccak256 BRKeyRecoverPubKey
          transaction network =
        some source := by
  have hAddress :
      ∃ address, recipient transaction = some address := by
    unfold recipient
    rcases hRecipient with
      ⟨found, hFound⟩ | ⟨token, number, hAmount⟩
    · rw [hFound]
      cases transaction.amount <;> exact ⟨_, rfl⟩
    · rw [hAmount]
      exact ⟨_, rfl⟩
  rcases hAddress with ⟨address, hAddress⟩
  have hUnsigned :=
    transactionEncodeRLP_eq hData (Nat.two_pow_pos 20) network
      .unsigned
  unfold transactionLeaves signatureLeaves at hUnsigned
  rw [hAddress, hData] at hUnsigned
  unfold transactionExtractAddress
  by_cases hSigned : transactionIsSigned transaction = true
  · rw [if_pos hSigned, hUnsigned]
    exact ⟨_, rfl⟩
  · rw [if_neg hSigned]
    exact ⟨_, rfl⟩

/- The transfer of the signed form of a new transaction. -/
theorem decodeTransfer_canonical
    (hToken :
      ∀ token value,
        amount = .token token value → token ∈ tokens)
    {item3 item4 item5 : BRRlpItem}
    {address value data : List UInt8}
    (hLeaves :
      canonicalTransfer target amount = [address, value, data])
    (hAddress : Reads coder item3 (.leaf address))
    (hValue : Reads coder item4 (.leaf value))
    (hData : Reads coder item5 (.leaf data)) :
    ∃ transfer,
      decodeTransfer tokens item3 item4 item5 coder =
          some (some transfer) ∧
        dataBytes transfer.data = some [] ∧
        ((∃ found, transfer.targetAddress = some found) ∨
          ∃ token number,
            transfer.amount = .token token number) := by
  unfold canonicalTransfer at hLeaves
  cases amount with
  | ether amount =>
      cases hLeaves
      rw [← uint256Bytes_eq_natBytes] at hValue
      rcases decodeTransfer_ether tokens hAddress hValue hData
        with ⟨found, hTransfer, -⟩
      exact
        ⟨_, hTransfer, dataBytes_prefix, Or.inl ⟨found, rfl⟩⟩
  | token token amount =>
      cases hLeaves
      rcases decodeTransfer_token (hToken token amount rfl)
          hAddress hData with
        ⟨transfer, found, number, hTransfer, hAmount, hNone⟩
      refine
        ⟨transfer, hTransfer, ?_,
          Or.inr ⟨found, number, hAmount⟩⟩
      rw [hNone]
      rfl

/- The leaves of a signed form are few and short. -/
theorem stored_signedLeaves
    (target : BREthereumAddress)
    (amount : BREthereumAmount)
    (gasPrice : UInt256)
    (gasLimit nonce : UInt64)
    {v : UInt8}
    (hFits : v.toNat + 8 + 2 * network.chainId < 2 ^ 31)
    {r s : List UInt8}
    (hR : r.length ≤ 32)
    (hS : s.length ≤ 32) :
    Stored
      (.node
        ((signedLeaves network target amount gasPrice gasLimit
          nonce v r s).map .leaf)) := by
  have hNonce := length_uint64Bytes nonce true
  have hGas := length_uint64Bytes gasLimit true
  have hPrice := length_uint256Bytes gasPrice true
  have hV :=
    length_uint64Bytes
      (UInt64.ofNat (v.toNat + 8 + 2 * network.chainId)) true
  rw [uint64Bytes_eq_natBytes] at hNonce hGas hV
  rw [uint256Bytes_eq_natBytes] at hPrice
  rw [eip155_toNat v hFits] at hV
  have hNone : ([] : List UInt8).length = 0 := rfl
  apply stored_leaves
  · unfold signedLeaves canonicalTransfer
    cases amount <;> exact (by decide : 9 < 2 ^ 20)
  · intro bytes hBytes
    unfold signedLeaves canonicalTransfer at hBytes
    cases amount with
    | ether value =>
        have hAddress := (addressBytes_spec target).2
        have hValue := length_uint256Bytes value true
        rw [uint256Bytes_eq_natBytes] at hValue
        simp only [List.cons_append, List.nil_append,
          List.mem_cons, List.not_mem_nil, or_false] at hBytes
        rcases hBytes with
          rfl | rfl | rfl | rfl | rfl | rfl | rfl | rfl | rfl <;>
          omega
    | token token value =>
        have hAddress :=
          (addressBytes_spec ⟨token.address, token.valid⟩).2
        have hValue := length_transferBytes target value
        simp only [List.cons_append, List.nil_append,
          List.mem_cons, List.not_mem_nil, or_false] at hBytes
        rcases hBytes with
          rfl | rfl | rfl | rfl | rfl | rfl | rfl | rfl | rfl <;>
          omega

theorem length_natBytes_le
    (bytes : List.Vector UInt8 32) :
    (natBytes (ofBigEndian bytes.toList)).length ≤ 32 := by
  rw [natBytes_ofBigEndian]
  have hLength :=
    List.length_dropWhile_le (· = 0) bytes.toList
  rwa [bytes.toList_length] at hLength

/- Both forms of a signature agree on the canonical bytes. -/
theorem encode_canonical_iff
    (hCreate :
      transactionCreate source target amount gasPrice gasLimit
          nonce =
        some created)
    {signature : BREthereumSignature}
    (hFits :
      signature.v.toNat + 8 + 2 * network.chainId < 2 ^ 31) :
    transactionEncodeRLP { created with signature := signature }
          network .signed =
        some
          (encoding
            (canonicalTree network target amount gasPrice
              gasLimit nonce signature)) ↔
      signature.r.head ≠ 0 ∧ signature.s.head ≠ 0 := by
  rcases dataBytes_created hCreate with ⟨data, hData, hShort⟩
  have hStored :=
    stored_signedLeaves target amount gasPrice gasLimit nonce
      hFits signature.r.toList_length.le
      signature.s.toList_length.le
  have hMemory := hStored
  rw [Stored] at hMemory
  rw [transactionEncodeRLP_eq
      (show dataBytes
          { created with signature := signature }.data =
        some data from hData)
      hShort,
    transactionLeaves_created hCreate hFits, Option.map_some,
    Option.some.injEq, ← natBytes_ofBigEndian_eq_iff,
    ← natBytes_ofBigEndian_eq_iff]
  constructor
  · intro hSame
    have hTrees :=
      encoding_injective hMemory.2.1 hStored
        (stored_signedLeaves target amount gasPrice gasLimit
          nonce hFits (length_natBytes_le signature.r)
          (length_natBytes_le signature.s))
        hSame
    unfold signedLeaves at hTrees
    simp only [RlpTree.node.injEq, List.map_append,
      List.append_cancel_left_eq, List.map_cons,
      List.cons.injEq, RlpTree.leaf.injEq, true_and] at hTrees
    exact ⟨hTrees.1.symm, hTrees.2.1.symm⟩
  · rintro ⟨hR, hS⟩
    unfold canonicalTree
    rw [hR, hS]

/- A signed form with 32 bytes for `r` and `s` is accepted. -/
theorem decode_signedLeaves
    (hToken :
      ∀ token value,
        amount = .token token value → token ∈ tokens)
    {signature : BREthereumSignature}
    (hFits :
      signature.v.toNat + 8 + 2 * network.chainId < 2 ^ 31) :
    ∃ decoded,
      transactionDecodeRLP BRKeccak256 BRKeyRecoverPubKey tokens
          network
          (encoding
            (.node
              ((signedLeaves network target amount gasPrice
                gasLimit nonce signature.v signature.r.toList
                signature.s.toList).map .leaf))) =
        some (some decoded) := by
  have hStored :=
    stored_signedLeaves target amount gasPrice gasLimit nonce
      hFits signature.r.toList_length.le
      signature.s.toList_length.le
  have hMemory := hStored
  rw [Stored] at hMemory
  have hParts :
      ∃ address value data,
        canonicalTransfer target amount =
          [address, value, data] := by
    cases amount <;> exact ⟨_, _, _, rfl⟩
  rcases hParts with ⟨address, value, data, hParts⟩
  rcases decodeRLP_encoding hMemory.2.1 hStored with
    ⟨item, coder, hReads, hDecode⟩
  unfold signedLeaves at hReads
  rw [hParts, ← eip155_toNat signature.v hFits,
    ← uint64Bytes_eq_natBytes, ← uint64Bytes_eq_natBytes,
    ← uint64Bytes_eq_natBytes, ← uint256Bytes_eq_natBytes]
    at hReads
  rcases transactionRlpDecodeItem_eq BRKeccak256
      BRKeyRecoverPubKey tokens network hReads with
    ⟨item3, item4, item5, item6, item7, item8, hAddress,
      hValue, hData, hItemV, hItemR, hItemS, hAll⟩
  rcases decodeTransfer_canonical hToken hParts hAddress hValue
      hData with
    ⟨transfer, hTransfer, hNoData, hRecipient⟩
  have hDoubles : Doubles network := by
    unfold Doubles
    omega
  have hRead :=
    decodeSignature_eq hItemV hItemR hItemS
      (eip155_ne signature.v (by omega))
  rw [if_neg (fun hOverflow => hOverflow.2 hDoubles),
    dif_pos ⟨signature.r.toList_length,
      signature.s.toList_length⟩] at hRead
  unfold transactionDecodeRLP
  rw [hDecode, hAll _ _ hTransfer hRead, Option.bind_some]
  dsimp only
  generalize hTransaction :
    ({ sourceAddress := none
       targetAddress := transfer.targetAddress
       amount := transfer.amount
       gasPrice := gasPrice
       gasLimit := gasLimit
       nonce := nonce
       data := transfer.data
       signature := _ } : BREthereumTransaction) =
      transaction
  have hKeptData : transaction.data = transfer.data := by
    rw [← hTransaction]
  have hKeptTarget :
      transaction.targetAddress = transfer.targetAddress := by
    rw [← hTransaction]
  have hKeptAmount : transaction.amount = transfer.amount := by
    rw [← hTransaction]
  rw [← hKeptData] at hNoData
  rw [← hKeptTarget, ← hKeptAmount] at hRecipient
  rcases transactionExtractAddress_isSome BRKeccak256 network
      hNoData hRecipient with
    ⟨source, hSource⟩
  rw [hSource]
  exact ⟨_, rfl⟩

/-
  A new transaction with a signature has the canonical bytes
  and these are accepted, exactly when its `v` is an `int` and
  neither `r` nor `s` has a zero byte in front.
-/
theorem transaction_canonical_iff
    (hCreate :
      transactionCreate source target amount gasPrice gasLimit
          nonce =
        some created)
    (hToken :
      ∀ token value,
        amount = .token token value → token ∈ tokens)
    (signature : BREthereumSignature) :
    (transactionEncodeRLP
            { created with signature := signature } network
            .signed =
          some
            (encoding
              (canonicalTree network target amount gasPrice
                gasLimit nonce signature)) ∧
        ∃ decoded,
          transactionDecodeRLP BRKeccak256 BRKeyRecoverPubKey
              tokens network
              (encoding
                (canonicalTree network target amount gasPrice
                  gasLimit nonce signature)) =
            some (some decoded)) ↔
      signature.v.toNat + 8 + 2 * network.chainId < 2 ^ 31 ∧
        signature.r.head ≠ 0 ∧ signature.s.head ≠ 0 := by
  constructor
  · rintro ⟨hSent, -⟩
    have hFits := fits_of_encodeRLP hSent
    exact ⟨hFits, (encode_canonical_iff hCreate hFits).mp hSent⟩
  · rintro ⟨hFits, hR, hS⟩
    have hSent :=
      (encode_canonical_iff hCreate hFits).mpr ⟨hR, hS⟩
    refine ⟨hSent, ?_⟩
    have hKeptR := (natBytes_ofBigEndian_eq_iff _).mpr hR
    have hKeptS := (natBytes_ofBigEndian_eq_iff _).mpr hS
    unfold canonicalTree
    rw [hKeptR, hKeptS]
    exact decode_signedLeaves BRKeccak256 hToken hFits

end Created

end Recovery

------------------------------------------------------------
-- A Short Signature
------------------------------------------------------------

/- A signature of which `r` begins with a zero byte. -/
def shortSignature : BREthereumSignature where
  type := .recoverable
  v := 27
  r := hashOfBytes [0, 1]
  s := List.Vector.replicate 32 1

def longSignature : BREthereumSignature where
  type := .recoverable
  v := 27
  r := List.Vector.replicate 32 1
  s := List.Vector.replicate 32 1

theorem canonical_longSignature :
    ∃ created,
      transactionCreate someAddress someAddress
            (.token someToken someValue) someValue 21000 3 =
          some created ∧
        transactionEncodeRLP
            { created with signature := longSignature } mainnet
            .signed =
          some
            (encoding
              (canonicalTree mainnet someAddress
                (.token someToken someValue) someValue 21000 3
                longSignature)) ∧
        ∃ decoded,
          transactionDecodeRLP shortHash namedRecover
              [someToken] mainnet
              (encoding
                (canonicalTree mainnet someAddress
                  (.token someToken someValue) someValue 21000 3
                  longSignature)) =
            some (some decoded) := by
  have hSome :
      (transactionCreate someAddress someAddress
          (.token someToken someValue) someValue 21000
          3).isSome =
        true := by
    decide +kernel
  rcases Option.isSome_iff_exists.mp hSome with
    ⟨created, hCreate⟩
  have hToken :
      ∀ token value,
        BREthereumAmount.token someToken someValue =
            .token token value →
          token ∈ [someToken] := by
    intro token value hSame
    cases hSame
    exact List.mem_singleton_self _
  exact
    ⟨created, hCreate,
      (transaction_canonical_iff shortHash hCreate hToken
        longSignature).mpr (by decide +kernel)⟩

/- A short `r` is written with its zero byte. -/
theorem shortSignature_not_canonical :
    ∃ created,
      transactionCreate someAddress someAddress
            (.ether someValue) someValue 21000 3 =
          some created ∧
        transactionEncodeRLP
            { created with signature := shortSignature } mainnet
            .signed ≠
          some
            (encoding
              (canonicalTree mainnet someAddress
                (.ether someValue) someValue 21000 3
                shortSignature)) := by
  have hSome :
      (transactionCreate someAddress someAddress
          (.ether someValue) someValue 21000 3).isSome =
        true := by
    decide +kernel
  rcases Option.isSome_iff_exists.mp hSome with
    ⟨created, hCreate⟩
  refine ⟨created, hCreate, fun hSent => ?_⟩
  have hHeads :=
    (encode_canonical_iff hCreate (fits_of_encodeRLP hSent)).mp
      hSent
  have hFirst : shortSignature.r.head = 0 := by decide
  exact hHeads.1 hFirst

end Ethereum

end PlusWallet
