import PlusWallet.Ethereum.BREthereumTransaction

/-
  Transactions as trees of items, and the items read back.

  Main declarations:
    * `Ethereum.addressBytes`, `Ethereum.dataBytes`
    * `Ethereum.transactionLeaves`
    * `Ethereum.transactionEncodeRLP_eq_some_iff`
    * `Ethereum.decodeTransfer_ether`
    * `Ethereum.decodeTransfer_token`
    * `Ethereum.decodeSignature_eq`
-/

namespace PlusWallet

open Bytes Rlp BRUtilHex BRUtilMath

namespace Ethereum

------------------------------------------------------------
-- Bytes of Addresses
------------------------------------------------------------

/- The 20 bytes of an address. -/
def addressBytes (address : BREthereumAddress) : List UInt8 :=
  (decodeHexBytes (address.string.drop 2)).getD []

/- What a valid string is made of. -/
theorem validate_cases
    {string : List UInt8}
    (hValid : validateAddressString string = true) :
    (cString "0x").isPrefixOf string = true ∧
      (string.drop 2).length = 40 ∧
      ∀ char ∈ string.drop 2, isxdigit char = true := by
  unfold validateAddressString encodeHexValidate at hValid
  rw [decide_eq_true_eq, decide_eq_true_eq, List.all_eq_true]
    at hValid
  refine ⟨hValid.2.1, ?_, hValid.2.2.2.2⟩
  rw [List.length_drop, hValid.1]

theorem addressBytes_spec (address : BREthereumAddress) :
    decodeHexCreate (address.string.drop 2) =
        some (addressBytes address) ∧
      (addressBytes address).length = 20 := by
  rcases validate_cases address.valid with
    ⟨-, hLength, hDigits⟩
  rcases exists_decodeHexBytes 20 hLength hDigits with
    ⟨bytes, hBytes, hCount⟩
  have hSame : addressBytes address = bytes := by
    unfold addressBytes
    rw [hBytes]
    rfl
  unfold decodeHexCreate decodeHex
  rw [hSame, hLength, if_pos (by decide)]
  exact ⟨hBytes, hCount⟩

theorem addressRlpEncode_eq
    (address : BREthereumAddress)
    (coder : BRRlpCoder) :
    addressRlpEncode address coder =
      encodeTree coder (.leaf (addressBytes address)) := by
  rcases validate_cases address.valid with
    ⟨hPrefix, hLength, -⟩
  have hNonempty : address.string.drop 2 ≠ [] := by
    rw [← List.length_pos_iff, hLength]
    decide
  unfold addressRlpEncode rlpEncodeItemHexString encodeTree
  dsimp only
  rw [if_pos hPrefix, if_neg hNonempty,
    (addressBytes_spec address).1]
  rfl

/- 20 bytes are the address of their hex string. -/
theorem createAddress_encodeHex
    {bytes : List UInt8}
    (hLength : bytes.length = 20) :
    ∃ address,
      createAddress (cString "0x" ++ encodeHex bytes) =
          some address ∧
        address.string = cString "0x" ++ encodeHex bytes ∧
        addressBytes address = bytes := by
  have hValid :=
    validate_of_digits
      (show (encodeHex bytes).length = 40 by
        rw [length_encodeHex, hLength])
      (fun char hChar => isxdigit_of_mem_encodeHex hChar)
  refine ⟨⟨_, hValid⟩, ?_, rfl, ?_⟩
  · unfold createAddress
    exact dif_pos hValid
  · have hDrop :
        (cString "0x" ++ encodeHex bytes).drop 2 =
          encodeHex bytes :=
      List.drop_left' rfl
    unfold addressBytes
    dsimp only
    rw [hDrop, decodeHexBytes_encodeHex]
    rfl

variable {item : BRRlpItem}
variable {coder : BRRlpCoder}

theorem hexString_of_reads
    {bytes : List UInt8}
    (hReads : Reads coder item (.leaf bytes)) :
    rlpDecodeItemHexString item coder =
      some (cString "0x" ++ encodeHex bytes) := by
  unfold rlpDecodeItemHexString
  rw [hReads.leaf.2]
  rfl

/- An address comes back with the same bytes. -/
theorem addressRlpDecode_eq
    {address : BREthereumAddress}
    (hReads :
      Reads coder item (.leaf (addressBytes address))) :
    ∃ found,
      addressRlpDecode item coder = some (some found) ∧
        found.string =
          cString "0x" ++ encodeHex (addressBytes address) ∧
        addressBytes found = addressBytes address := by
  rcases createAddress_encodeHex
      (addressBytes_spec address).2 with
    ⟨found, hFound, hString, hBytes⟩
  refine ⟨found, ?_, hString, hBytes⟩
  unfold addressRlpDecode
  rw [hexString_of_reads hReads, Option.bind_eq_bind,
    Option.bind_some, hFound]

------------------------------------------------------------
-- Bytes of Data
------------------------------------------------------------

/- The bytes of a hex string, with or without its prefix. -/
def dataBytes
    (data : Option (List UInt8)) : Option (List UInt8) :=
  match data with
  | none => some []
  | some data =>
      decodeHexCreate
        (if (cString "0x").isPrefixOf data then data.drop 2
        else data)

theorem decodeHexCreate_nil :
    decodeHexCreate [] = some [] := by
  decide

theorem transactionEncodeDataForHolding_eq
    (transaction : BREthereumTransaction)
    (coder : BRRlpCoder) :
    transactionEncodeDataForHolding transaction coder =
      (dataBytes transaction.data).bind fun bytes =>
        encodeTree coder (.leaf bytes) := by
  unfold transactionEncodeDataForHolding
  cases transaction.data with
  | none =>
      dsimp only [dataBytes]
      rw [Option.bind_some, encodeTree]
      rfl
  | some data =>
      by_cases hEmpty : data = []
      · dsimp only
        rw [if_pos hEmpty, hEmpty]
        have hBytes : dataBytes (some []) = some [] := by
          decide
        rw [hBytes, Option.bind_some, encodeTree]
        rfl
      · dsimp only [dataBytes]
        rw [if_neg hEmpty]
        unfold rlpEncodeItemHexString
        dsimp only
        generalize
          (if (cString "0x").isPrefixOf data = true then
              data.drop 2
            else data) =
            digits
        by_cases hDigits : digits = []
        · rw [if_pos hDigits, hDigits, decodeHexCreate_nil,
            Option.bind_some, encodeTree]
          rfl
        · rw [if_neg hDigits]
          cases decodeHexCreate digits with
          | none => rfl
          | some bytes =>
              rw [Option.bind_some, encodeTree]
              rfl

/- The bytes of a token transfer. -/
def transferBytes
    (target : BREthereumAddress)
    (value : UInt256) : List UInt8 :=
  [0xa9, 0x05, 0x9c, 0xbb] ++
    (List.replicate 12 0 ++ addressBytes target) ++
    value.toList.reverse

theorem length_transferBytes
    (target : BREthereumAddress)
    (value : UInt256) :
    (transferBytes target value).length = 68 := by
  unfold transferBytes
  rw [List.length_append, List.length_append,
    List.length_append, (addressBytes_spec target).2,
    List.length_reverse, List.Vector.toList_length]
  rfl

theorem selector_eq :
    (selector .transfer).drop 2 =
      encodeHex [0xa9, 0x05, 0x9c, 0xbb] := by
  decide

theorem contractEncode_eq
    (target : BREthereumAddress)
    (value : UInt256) :
    contractEncode (target.string.drop 2) value =
      some (encodeHex (transferBytes target value)) := by
  rcases validate_cases target.valid with ⟨-, hLength, -⟩
  rcases addressBytes_spec target with ⟨hBytes, hCount⟩
  unfold decodeHexCreate at hBytes
  rw [hLength] at hBytes
  unfold contractEncode argumentEncodeAddress
    argumentEncodeUInt256 transferBytes
  rw [hLength, hBytes]
  simp only [Option.bind_eq_bind, Option.bind_some]
  rw [hCount, if_pos (by decide), Option.bind_some,
    selector_eq]
  simp only [encodeHex_append]

/- The data of a new transaction. -/
theorem dataBytes_transfer
    (target : BREthereumAddress)
    (value : UInt256) :
    dataBytes
        (some (encodeHex (transferBytes target value))) =
      some (transferBytes target value) := by
  have hPlain :
      (cString "0x").isPrefixOf
          (encodeHex (transferBytes target value)) =
        false := by
    unfold transferBytes
    rw [List.append_assoc, encodeHex_append, ← selector_eq]
    rfl
  unfold dataBytes
  dsimp only
  rw [hPlain]
  unfold decodeHexCreate
  simp only [Bool.false_eq_true, if_false, length_encodeHex]
  rw [Nat.mul_div_cancel_left _ (by decide)]
  exact decodeHex_encodeHex _

------------------------------------------------------------
-- Trees of Transactions
------------------------------------------------------------

/- The address that a transaction is sent to. -/
def recipient
    (transaction : BREthereumTransaction) :
    Option BREthereumAddress :=
  match transaction.amount with
  | .ether _ => transaction.targetAddress
  | .token token _ => some ⟨token.address, token.valid⟩

/- The value that is sent along. -/
def amountBytes (amount : BREthereumAmount) : List UInt8 :=
  match amount with
  | .ether value => uint256Bytes value true
  | .token _ _ => []

/- The bytes of the last three items. -/
def signatureLeaves
    (signature : BREthereumSignature)
    (network : BREthereumNetwork) :
    BREthereumTransactionRLPType → Option (List (List UInt8))
  | .unsigned =>
      some
        [uint64Bytes (UInt64.ofNat network.chainId) true, [],
          []]
  | .signed => do
      let v ← eip155V signature.v network
      some
        [uint64Bytes v true, signature.r.toList,
          signature.s.toList]

/- The bytes of the nine items. -/
def transactionLeaves
    (transaction : BREthereumTransaction)
    (network : BREthereumNetwork)
    (type : BREthereumTransactionRLPType) :
    Option (List (List UInt8)) := do
  let address ← recipient transaction
  let data ← dataBytes transaction.data
  let signature ←
    signatureLeaves transaction.signature network type
  some
    ([uint64Bytes transaction.nonce true,
        uint256Bytes transaction.gasPrice true,
        uint64Bytes transaction.gasLimit true,
        addressBytes address,
        amountBytes transaction.amount, data] ++
      signature)

theorem encodeRecipient_eq
    (transaction : BREthereumTransaction)
    (coder : BRRlpCoder) :
    transactionEncodeAddressForHolding transaction coder =
      (recipient transaction).bind fun address =>
        encodeTree coder (.leaf (addressBytes address)) := by
  unfold transactionEncodeAddressForHolding recipient
  cases transaction.amount with
  | ether value =>
      dsimp only
      cases transaction.targetAddress with
      | none => rfl
      | some target => exact addressRlpEncode_eq target coder
  | token token value =>
      have hCreate :
          createAddress token.address =
            some ⟨token.address, token.valid⟩ := by
        unfold createAddress
        exact dif_pos token.valid
      dsimp only
      rw [hCreate]
      exact addressRlpEncode_eq _ coder

theorem amountRlpEncode_eq
    (amount : BREthereumAmount)
    (coder : BRRlpCoder) :
    amountRlpEncode amount coder =
      encodeTree coder (.leaf (amountBytes amount)) := by
  rw [encodeTree]
  cases amount with
  | ether value =>
      dsimp only [amountRlpEncode, amountBytes, etherRlpEncode]
      rw [encodeUInt256_eq]
  | token token value =>
      dsimp only [amountRlpEncode, amountBytes]
      rw [encodeUInt64_eq]
      rfl

theorem encodeSignature_eq
    (signature : BREthereumSignature)
    (network : BREthereumNetwork)
    (type : BREthereumTransactionRLPType)
    (coder : BRRlpCoder) :
    encodeSignature signature network type coder =
      (signatureLeaves signature network type).bind fun leaves =>
        encodeTrees coder (leaves.map .leaf) := by
  cases type with
  | unsigned =>
      simp only [encodeSignature, signatureLeaves,
        rlpEncodeItemString, encodeUInt64_eq, encodeTree,
        encodeTrees, List.map_cons, List.map_nil,
        Option.bind_eq_bind, Option.bind_some]
  | signed =>
      unfold encodeSignature signatureLeaves
      dsimp only
      cases eip155V signature.v network with
      | none => rfl
      | some v =>
          simp only [encodeUInt64_eq, encodeTree, encodeTrees,
            List.map_cons, List.map_nil, Option.bind_eq_bind,
            Option.bind_some]

theorem encodeTrees_append
    (front rest : List RlpTree)
    (coder : BRRlpCoder) :
    encodeTrees coder (front ++ rest) =
      (encodeTrees coder front).bind fun first =>
        (encodeTrees first.2 rest).map fun second =>
          (first.1 ++ second.1, second.2) := by
  induction front generalizing coder with
  | nil =>
      rw [List.nil_append, encodeTrees, Option.bind_some]
      cases encodeTrees coder rest <;> rfl
  | cons tree front ih =>
      rw [List.cons_append, encodeTrees, encodeTrees]
      cases encodeTree coder tree with
      | none => rfl
      | some first =>
          simp only [Option.bind_eq_bind, Option.bind_some, ih]
          cases encodeTrees first.2 front with
          | none => rfl
          | some second =>
              simp only [Option.bind_some]
              cases encodeTrees second.2 rest <;> rfl

/- A transaction is encoded as the list of its leaves. -/
theorem transactionRlpEncodeItem_eq
    (transaction : BREthereumTransaction)
    (network : BREthereumNetwork)
    (type : BREthereumTransactionRLPType)
    (coder : BRRlpCoder) :
    transactionRlpEncodeItem transaction network type coder =
      (transactionLeaves transaction network type).bind
        fun leaves =>
          encodeTree coder (.node (leaves.map .leaf)) := by
  unfold transactionRlpEncodeItem transactionLeaves
  simp only [transactionEncodeNonce, gasPriceRlpEncode,
    etherRlpEncode, gasRlpEncode, encodeUInt64_eq,
    encodeUInt256_eq, encodeRecipient_eq, amountRlpEncode_eq,
    transactionEncodeDataForHolding_eq, encodeSignature_eq,
    Option.bind_eq_bind, Option.bind_some]
  cases recipient transaction with
  | none => rfl
  | some address =>
      cases dataBytes transaction.data with
      | none => rfl
      | some data =>
          cases signatureLeaves transaction.signature network
              type with
          | none => rfl
          | some signature =>
              simp only [Option.bind_some, List.map_append,
                encodeTree, encodeTrees_append, List.map_cons,
                List.map_nil, encodeTrees, Option.bind_eq_bind]
              generalize
                (rlpEncodeItemBytes _ data).2 = middle
              cases encodeTrees middle
                  (signature.map RlpTree.leaf) <;> rfl

theorem length_signatureLeaves
    {signature : BREthereumSignature}
    {network : BREthereumNetwork}
    {type : BREthereumTransactionRLPType}
    {leaves : List (List UInt8)}
    (hLeaves :
      signatureLeaves signature network type = some leaves) :
    leaves.length = 3 ∧
      ∀ bytes ∈ leaves, bytes.length < 2 ^ 20 := by
  have hSmall :
      ∀ number, (uint64Bytes number true).length < 2 ^ 20 := by
    intro number
    have hLength := length_uint64Bytes number true
    omega
  cases type with
  | unsigned =>
      cases hLeaves
      refine ⟨rfl, ?_⟩
      simp only [List.forall_mem_cons, hSmall, true_and]
      simp
  | signed =>
      unfold signatureLeaves at hLeaves
      dsimp only at hLeaves
      rw [Option.bind_eq_bind, Option.bind_eq_some_iff]
        at hLeaves
      rcases hLeaves with ⟨v, -, hSame⟩
      cases hSame
      refine ⟨rfl, ?_⟩
      have hR : signature.r.toList.length = 32 :=
        signature.r.toList_length
      have hS : signature.s.toList.length = 32 :=
        signature.s.toList_length
      simp only [List.forall_mem_cons, hSmall, true_and]
      simp [hR, hS]

/- Leaves with short data always fit. -/
theorem stored_transactionLeaves
    {transaction : BREthereumTransaction}
    {network : BREthereumNetwork}
    {type : BREthereumTransactionRLPType}
    {leaves : List (List UInt8)}
    {data : List UInt8}
    (hData : dataBytes transaction.data = some data)
    (hShort : data.length < 2 ^ 20)
    (hLeaves :
      transactionLeaves transaction network type =
        some leaves) :
    Stored (.node (leaves.map .leaf)) := by
  unfold transactionLeaves at hLeaves
  simp only [Option.bind_eq_bind, Option.bind_eq_some_iff]
    at hLeaves
  rcases hLeaves with
    ⟨address, -, found, hFound, signature, hSignature, hSame⟩
  rw [hData] at hFound
  cases hFound
  cases hSame
  rcases length_signatureLeaves hSignature with
    ⟨hCount, hSmall⟩
  have hAddress := (addressBytes_spec address).2
  have hNonce := length_uint64Bytes transaction.nonce true
  have hGas := length_uint64Bytes transaction.gasLimit true
  have hPrice := length_uint256Bytes transaction.gasPrice true
  have hAmount :
      (amountBytes transaction.amount).length < 2 ^ 20 := by
    cases transaction.amount with
    | ether value =>
        have hValue := length_uint256Bytes value true
        exact lt_of_le_of_lt hValue (by decide)
    | token token value => exact Nat.two_pow_pos 20
  apply stored_leaves
  · rw [List.length_append, hCount]
    simp
  · intro bytes hBytes
    rcases List.mem_append.mp hBytes with hFirst | hLast
    · simp only [List.mem_cons, List.not_mem_nil, or_false]
        at hFirst
      rcases hFirst with
        rfl | rfl | rfl | rfl | rfl | rfl <;> omega
    · exact hSmall bytes hLast

/- What encoding a transaction with short data gives. -/
theorem transactionEncodeRLP_eq
    {transaction : BREthereumTransaction}
    {data : List UInt8}
    (hData : dataBytes transaction.data = some data)
    (hShort : data.length < 2 ^ 20)
    (network : BREthereumNetwork)
    (type : BREthereumTransactionRLPType) :
    transactionEncodeRLP transaction network type =
      (transactionLeaves transaction network type).map
        fun leaves => encoding (.node (leaves.map .leaf)) := by
  have hItem := transactionRlpEncodeItem_eq transaction network
    type
  cases hLeaves : transactionLeaves transaction network type with
  | none =>
      unfold transactionEncodeRLP encodeRLP
      rw [hItem, hLeaves]
      rfl
  | some leaves =>
      have hStored :=
        stored_transactionLeaves hData hShort hLeaves
      rw [Option.map_some]
      apply (encodeRLP_eq_some_iff ?_ _).mpr ⟨hStored, rfl⟩
      intro coder
      rw [hItem, hLeaves, Option.bind_some]

------------------------------------------------------------
-- Reading Transfers
------------------------------------------------------------

/- Ether is told by its empty data. -/
theorem decodeTransfer_ether
    (tokens : List BREthereumToken)
    {item3 item4 item5 : BRRlpItem}
    {address : BREthereumAddress}
    {value : UInt256}
    (hAddress :
      Reads coder item3 (.leaf (addressBytes address)))
    (hValue : Reads coder item4 (.leaf (uint256Bytes value true)))
    (hData : Reads coder item5 (.leaf [])) :
    ∃ found,
      decodeTransfer tokens item3 item4 item5 coder =
          some
            (some
              { targetAddress := some found
                amount := .ether value
                data := some (cString "0x") }) ∧
        addressBytes found = addressBytes address := by
  rcases addressRlpDecode_eq hAddress with
    ⟨found, hFound, -, hBytes⟩
  refine ⟨found, ?_, hBytes⟩
  unfold decodeTransfer
  rw [hexString_of_reads hData]
  simp only [encodeHex, List.flatMap_nil, List.append_nil,
    Option.bind_eq_bind, Option.bind_some, or_true, if_true,
    hFound, amountRlpDecodeAsEther, etherRlpDecode,
    hValue.uint256Bytes]

/- The digits of a byte, in lower case. -/
theorem tolower_hexc
    {high low highValue lowValue : UInt8}
    (hHigh : hexu high = some highValue)
    (hLow : hexu low = some lowValue) :
    tolower (hexc ((highValue <<< 4 ||| lowValue) >>> 4)) =
        tolower high ∧
      tolower (hexc (highValue <<< 4 ||| lowValue)) =
        tolower low := by
  have hDigit :
      ∀ number < 256, ∀ value < 16,
        hexu (UInt8.ofNat number) = some (UInt8.ofNat value) →
          tolower (hexc (UInt8.ofNat value)) =
            tolower (UInt8.ofNat number) := by
    decide +kernel
  have hHalves :
      ∀ first < 16, ∀ second < 16,
        hexc
              ((UInt8.ofNat first <<< 4 |||
                UInt8.ofNat second) >>> 4) =
            hexc (UInt8.ofNat first) ∧
          hexc
              (UInt8.ofNat first <<< 4 |||
                UInt8.ofNat second) =
            hexc (UInt8.ofNat second) := by
    decide +kernel
  have hHighLt := hexu_lt hHigh
  have hLowLt := hexu_lt hLow
  have hSplit :=
    hHalves highValue.toNat hHighLt lowValue.toNat hLowLt
  have hFirst :=
    hDigit high.toNat high.toNat_lt highValue.toNat hHighLt
  have hSecond :=
    hDigit low.toNat low.toNat_lt lowValue.toNat hLowLt
  simp only [UInt8.ofNat_toNat] at hSplit hFirst hSecond
  rw [hSplit.1, hSplit.2]
  exact ⟨hFirst hHigh, hSecond hLow⟩

theorem lower_encodeHex
    {source bytes : List UInt8}
    (hBytes : decodeHexBytes source = some bytes)
    (hEven : source.length % 2 = 0) :
    (encodeHex bytes).map tolower = source.map tolower := by
  induction bytes generalizing source with
  | nil =>
      rcases source with _ | ⟨high, _ | ⟨low, rest⟩⟩
      · rfl
      · rw [List.length_singleton] at hEven
        cases hEven
      · simp only [decodeHexBytes, Option.bind_eq_bind,
          Option.bind_eq_some_iff] at hBytes
        rcases hBytes with ⟨_, -, _, -, _, -, hSame⟩
        cases hSame
  | cons byte bytes ih =>
      rcases source with _ | ⟨high, _ | ⟨low, rest⟩⟩
      · cases hBytes
      · cases hBytes
      · simp only [decodeHexBytes, Option.bind_eq_bind,
          Option.bind_eq_some_iff] at hBytes
        rcases hBytes with
          ⟨highValue, hHigh, lowValue, hLow, others, hRest,
            hSame⟩
        cases hSame
        rw [List.length_cons, List.length_cons] at hEven
        have hDigits := tolower_hexc hHigh hLow
        rw [encodeHex_cons, List.map_cons, List.map_cons,
          List.map_cons, List.map_cons, hDigits.1, hDigits.2,
          ih hRest (by omega)]

/- A token is found by the bytes of its address. -/
theorem tokenLookup_isSome
    {tokens : List BREthereumToken}
    {token : BREthereumToken}
    (hToken : token ∈ tokens) :
    ∃ found,
      tokenLookup tokens
          (cString "0x" ++
            encodeHex
              (addressBytes ⟨token.address, token.valid⟩)) =
        some found := by
  rcases validate_cases token.valid with ⟨hPrefix, hLength, -⟩
  have hBytes :=
    (addressBytes_spec ⟨token.address, token.valid⟩).1
  unfold decodeHexCreate decodeHex at hBytes
  dsimp only at hBytes
  rw [hLength, if_pos (by decide)] at hBytes
  have hLower :=
    lower_encodeHex hBytes (by rw [hLength])
  rw [List.isPrefixOf_iff_prefix] at hPrefix
  rcases hPrefix with ⟨digits, hDigits⟩
  have hDrop : token.address.drop 2 = digits := by
    rw [← hDigits]
    exact List.drop_left' rfl
  have hSame :
      strcasecmp
          (cString "0x" ++
            encodeHex
              (addressBytes ⟨token.address, token.valid⟩))
          token.address =
        true := by
    unfold strcasecmp
    rw [decide_eq_true_eq, List.map_append, hLower, hDrop,
      ← List.map_append, hDigits]
  unfold tokenLookup
  rw [if_neg (by simp [cString]), ← Option.isSome_iff_exists,
    List.find?_isSome]
  exact ⟨token, hToken, hSame⟩

/- The data of a token transfer are those of `transfer`. -/
theorem lookup_transfer (rest : List UInt8) :
    contractLookupFunctionForEncoding
        (selector .transfer ++ rest) =
      some .transfer := rfl

/-
  A token transfer is accepted, with a token of the same
  address, and without its data.
-/
theorem decodeTransfer_token
    {tokens : List BREthereumToken}
    {token : BREthereumToken}
    (hToken : token ∈ tokens)
    {item3 item4 item5 : BRRlpItem}
    {target : BREthereumAddress}
    {value : UInt256}
    (hAddress :
      Reads coder item3
        (.leaf (addressBytes ⟨token.address, token.valid⟩)))
    (hData :
      Reads coder item5 (.leaf (transferBytes target value))) :
    ∃ transfer found number,
      decodeTransfer tokens item3 item4 item5 coder =
          some (some transfer) ∧
        transfer.amount = .token found number ∧
        transfer.data = none := by
  rcases addressRlpDecode_eq hAddress with
    ⟨contract, hContract, hString, -⟩
  rcases tokenLookup_isSome hToken with ⟨found, hFound⟩
  rw [← hString] at hFound
  have hSelector :
      cString "0x" ++
          encodeHex (transferBytes target value) =
        selector .transfer ++
          (encodeHex
              (List.replicate 12 0 ++ addressBytes target) ++
            encodeHex value.toList.reverse) := by
    unfold transferBytes
    rw [encodeHex_append, encodeHex_append, ← selector_eq,
      List.append_assoc, ← List.append_assoc]
    rfl
  have hFront :
      (selector .transfer ++
          encodeHex
            (List.replicate 12 0 ++
              addressBytes target)).length =
        74 := by
    rw [List.length_append, length_encodeHex,
      List.length_append, (addressBytes_spec target).2]
    rfl
  have hLast :
      (encodeHex value.toList.reverse).length = 64 := by
    rw [length_encodeHex, List.length_reverse,
      List.Vector.toList_length]
  have hAmount :
      ∃ number,
        functionERC20TransferDecodeAmount
            (cString "0x" ++
              encodeHex (transferBytes target value)) =
          some (.ok, number) := by
    rcases
        parse_hex
          (fun char hChar => isxdigit_of_mem_encodeHex hChar)
          hLast.le with
      ⟨number, hNumber⟩
    refine ⟨number, ?_⟩
    unfold functionERC20TransferDecodeAmount
    rw [hSelector, ← List.append_assoc]
    dsimp only
    rw [if_pos]
    · have hStart :
          (selector .transfer).length + 1 * 64 = 74 := rfl
      rw [hStart, List.drop_left' hFront, hNumber]
    · rw [List.length_append, hFront]
      exact Nat.le_add_right 74 _
  rcases hAmount with ⟨number, hNumber⟩
  have hReceiver :
      ∃ receiver,
        functionERC20TransferDecodeAddress
            (cString "0x" ++
              encodeHex (transferBytes target value)) =
          some receiver := by
    unfold functionERC20TransferDecodeAddress slice
    rw [hSelector, ← List.append_assoc, if_pos]
    · exact ⟨_, rfl⟩
    · rw [List.length_append, hFront]
      have hStart :
          (selector .transfer).length + 24 + 40 = 74 := rfl
      rw [hStart]
      exact Nat.le_add_right 74 _
  rcases hReceiver with ⟨receiver, hReceiver⟩
  have hSome :
      ¬ (cString "0x" ++
            encodeHex (transferBytes target value) =
          [] ∨
        cString "0x" ++
            encodeHex (transferBytes target value) =
          cString "0x") := by
    rw [hSelector]
    rintro (hNone | hShort)
    · exact absurd (congrArg List.length hNone) (by simp [selector, cString])
    · exact absurd (congrArg List.length hShort) (by simp [selector, cString])
  unfold decodeTransfer
  rw [hexString_of_reads hData]
  simp only [Option.bind_eq_bind, Option.bind_some]
  rw [if_neg hSome, hContract, Option.bind_some,
    Option.bind_some, hFound, hNumber, hReceiver]
  rw [hSelector, lookup_transfer]
  exact ⟨_, found, number, rfl, rfl, rfl⟩

end Ethereum

end PlusWallet
