import PlusWallet.Rlp.Items
import PlusWallet.Ethereum.BRUtilMath

/-
  Transactions of `BREthereumTransaction.c` with the addresses,
  amounts, tokens and contract functions that they are encoded
  of.

  A result of `none` stands for a failed assertion, a read
  beyond a string, or an `int` that overflows.

  Main declarations:
    * `BREthereumAddress`, `BREthereumToken`
    * `BREthereumTransaction`
    * `Ethereum.transactionEncodeRLP`
    * `Ethereum.transactionDecodeRLP`
    * `Ethereum.walletSignTransaction`
-/

namespace PlusWallet

open Bytes Rlp BRUtilHex BRUtilMath

------------------------------------------------------------
-- Addresses
------------------------------------------------------------

/- `validateAddressString` -/
def validateAddressString (string : List UInt8) : Bool :=
  string.length = 42 ∧ (cString "0x").isPrefixOf string ∧
    encodeHexValidate (string.drop 2)

/- `BREthereumAddressRecord`: its string -/
structure BREthereumAddress where
  string : List UInt8
  valid : validateAddressString string = true
deriving DecidableEq

namespace Ethereum

/- `createAddress`, `none` for its `NULL` -/
def createAddress
    (string : List UInt8) : Option BREthereumAddress :=
  if hValid : validateAddressString string = true then
    some ⟨string, hValid⟩
  else none

/- `tolower` -/
def tolower (c : UInt8) : UInt8 :=
  if cChar 'A' ≤ c ∧ c ≤ cChar 'Z' then c + 0x20 else c

/- `toupper` -/
def toupper (c : UInt8) : UInt8 :=
  if cChar 'a' ≤ c ∧ c ≤ cChar 'z' then c - 0x20 else c

/- A letter in the case that a digit of the hash asks for. -/
def checksumChar
    (hash : List UInt8)
    (i : Nat)
    (char : UInt8) : UInt8 :=
  let value :=
    (0x0f : UInt8) &&&
      (hash.getD (i / 2) 0 >>> (if i % 2 = 0 then 4 else 0))
  if value < 8 then tolower char else toupper char

/-
  The string of `createAddressDerived`, of the 64 bytes of the
  key behind its 0x04
-/
def derivedString
    (BRKeccak256 : List UInt8 → UInt256)
    (publicKey : List.Vector UInt8 64) : List UInt8 :=
  let hash := BRKeccak256 publicKey.toList
  let checksumAddr := encodeHex (hash.toList.drop 12)
  let hash := BRKeccak256 checksumAddr
  cString "0x" ++
    checksumAddr.mapIdx (checksumChar hash.toList)

theorem isxdigit_case
    {char : UInt8}
    (hDigit : isxdigit char = true) :
    isxdigit (tolower char) = true ∧
      isxdigit (toupper char) = true := by
  have hAll :
      ∀ number < 256,
        isxdigit (UInt8.ofNat number) = true →
          isxdigit (tolower (UInt8.ofNat number)) = true ∧
            isxdigit (toupper (UInt8.ofNat number)) = true := by
    decide +kernel
  have hChar := hAll char.toNat char.toNat_lt
  rw [UInt8.ofNat_toNat] at hChar
  exact hChar hDigit

theorem isxdigit_checksumChar
    (hash : List UInt8)
    (i : Nat)
    {char : UInt8}
    (hDigit : isxdigit char = true) :
    isxdigit (checksumChar hash i char) = true := by
  have hCase := isxdigit_case hDigit
  unfold checksumChar
  dsimp only
  generalize
    (0x0f : UInt8) &&&
        (hash.getD (i / 2) 0 >>>
          (if i % 2 = 0 then 4 else 0)) =
      value
  by_cases hSmall : value < 8
  · rw [if_pos hSmall]
    exact hCase.1
  · rw [if_neg hSmall]
    exact hCase.2

/- `0x` and 40 hex digits are an address. -/
theorem validate_of_digits
    {digits : List UInt8}
    (hLength : digits.length = 40)
    (hDigits : ∀ char ∈ digits, isxdigit char = true) :
    validateAddressString (cString "0x" ++ digits) = true := by
  have hTwo : (cString "0x").length = 2 := rfl
  have hNonempty : digits ≠ [] := by
    rw [← List.length_pos_iff, hLength]
    decide
  unfold validateAddressString encodeHexValidate
  rw [decide_eq_true_eq, List.length_append, hTwo, hLength,
    List.drop_left' hTwo, decide_eq_true_eq,
    List.isPrefixOf_iff_prefix, List.all_eq_true, hLength]
  exact
    ⟨rfl, List.prefix_append _ _, hNonempty, rfl, hDigits⟩

theorem derivedString_valid
    (BRKeccak256 : List UInt8 → UInt256)
    (publicKey : List.Vector UInt8 64) :
    validateAddressString
        (derivedString BRKeccak256 publicKey) =
      true := by
  unfold derivedString
  apply validate_of_digits
  · rw [List.length_mapIdx, length_encodeHex, List.length_drop,
      List.Vector.toList_length]
  · intro char hChar
    rcases List.mem_mapIdx.mp hChar with ⟨i, hi, rfl⟩
    apply isxdigit_checksumChar
    exact isxdigit_of_mem_encodeHex (List.getElem_mem hi)

/- `createAddressDerived` -/
def createAddressDerived
    (BRKeccak256 : List UInt8 → UInt256)
    (publicKey : List.Vector UInt8 64) :
    BREthereumAddress where
  string := derivedString BRKeccak256 publicKey
  valid := derivedString_valid BRKeccak256 publicKey

------------------------------------------------------------
-- Strings as Items
------------------------------------------------------------

/- `rlpEncodeItemString` -/
def rlpEncodeItemString (string : List UInt8) : Encoder :=
  fun coder => some (rlpEncodeItemBytes coder string)

/- `rlpEncodeItemHexString` of a string -/
def rlpEncodeItemHexString (string : List UInt8) : Encoder :=
  fun coder =>
    let string :=
      if (cString "0x").isPrefixOf string then string.drop 2
      else string
    if string = [] then rlpEncodeItemString [] coder
    else do
      let bytes ← decodeHexCreate string
      some (rlpEncodeItemBytes coder bytes)

/- `rlpDecodeItemHexString` with the prefix `0x` -/
def rlpDecodeItemHexString
    (item : BRRlpItem)
    (coder : BRRlpCoder) : Option (List UInt8) := do
  let data ← rlpDecodeItemBytes coder item
  some (cString "0x" ++ encodeHex data)

/- `addressRlpEncode` -/
def addressRlpEncode (address : BREthereumAddress) : Encoder :=
  rlpEncodeItemHexString address.string

/- `addressRlpDecode`, `none` inside for its `NULL` -/
def addressRlpDecode
    (item : BRRlpItem)
    (coder : BRRlpCoder) :
    Option (Option BREthereumAddress) := do
  let string ← rlpDecodeItemHexString item coder
  some (createAddress string)

end Ethereum

------------------------------------------------------------
-- Amounts
------------------------------------------------------------

/- `BREthereumTokenRecord`: the address of its contract -/
structure BREthereumToken where
  address : List UInt8
  valid : validateAddressString address = true
deriving DecidableEq

/- `BREthereumAmount`: ether in WEI, or a number of a token -/
inductive BREthereumAmount where
  | ether (valueInWEI : UInt256)
  | token (token : BREthereumToken) (valueAsInteger : UInt256)
deriving DecidableEq

namespace Ethereum

/- `strcasecmp` is 0 -/
def strcasecmp (s1 s2 : List UInt8) : Bool :=
  s1.map tolower = s2.map tolower

/- `tokenLookup` in the table of tokens, `none` for `NULL` -/
def tokenLookup
    (tokens : List BREthereumToken)
    (address : List UInt8) : Option BREthereumToken :=
  if address = [] then none
  else
    tokens.find? fun token => strcasecmp address token.address

/- `etherRlpEncode` -/
def etherRlpEncode (valueInWEI : UInt256) : Encoder :=
  fun coder => some (rlpEncodeItemUInt256 coder valueInWEI true)

/- `etherRlpDecode` -/
def etherRlpDecode
    (item : BRRlpItem)
    (coder : BRRlpCoder) : Option UInt256 :=
  rlpDecodeItemUInt256 coder item true

/- `gasRlpEncode` -/
def gasRlpEncode (amountOfGas : UInt64) : Encoder :=
  fun coder => some (rlpEncodeItemUInt64 coder amountOfGas true)

/- `gasRlpDecode` -/
def gasRlpDecode
    (item : BRRlpItem)
    (coder : BRRlpCoder) : Option UInt64 :=
  rlpDecodeItemUInt64 coder item true

/- `gasPriceRlpEncode` -/
def gasPriceRlpEncode (etherPerGas : UInt256) : Encoder :=
  etherRlpEncode etherPerGas

/- `gasPriceRlpDecode` -/
def gasPriceRlpDecode
    (item : BRRlpItem)
    (coder : BRRlpCoder) : Option UInt256 :=
  etherRlpDecode item coder

/- `amountRlpEncode` -/
def amountRlpEncode (amount : BREthereumAmount) : Encoder :=
  match amount with
  | .ether valueInWEI => etherRlpEncode valueInWEI
  | .token _ _ => fun coder =>
      some (rlpEncodeItemUInt64 coder 0 true)

/- `amountRlpDecodeAsEther` -/
def amountRlpDecodeAsEther
    (item : BRRlpItem)
    (coder : BRRlpCoder) : Option BREthereumAmount := do
  let valueInWEI ← etherRlpDecode item coder
  some (.ether valueInWEI)

------------------------------------------------------------
-- Contract Functions
------------------------------------------------------------

/- The functions of `contractRecordERC20` -/
inductive BREthereumContractFunction where
  | totalSupply
  | balanceOf
  | transfer
  | transferFrom
  | approve
  | allowance
deriving DecidableEq

/- The selectors of `contractRecordERC20` -/
def selector : BREthereumContractFunction → List UInt8
  | .totalSupply => cString "0x18160ddd"
  | .balanceOf => cString "0x70a08231"
  | .transfer => cString "0xa9059cbb"
  | .transferFrom => cString "0x23b872dd"
  | .approve => cString "0x095ea7b3"
  | .allowance => cString "0xdd62ed3e"

/- The order of the functions in `contractRecordERC20` -/
def contractERC20 : List BREthereumContractFunction :=
  [.totalSupply, .balanceOf, .transfer, .transferFrom,
    .approve, .allowance]

/- `contractLookupFunctionForEncoding`, `none` for `NULL` -/
def contractLookupFunctionForEncoding
    (encoding : List UInt8) :
    Option BREthereumContractFunction :=
  contractERC20.find? fun function =>
    (selector function).isPrefixOf encoding

/- `argumentEncodeAddress` into 32 bytes -/
def argumentEncodeAddress
    (bytes : List UInt8) : Option (List UInt8) := do
  let decodedBytes ← decodeHex (bytes.length / 2) bytes
  if decodedBytes.length ≤ 32 then
    some
      (List.replicate (32 - decodedBytes.length) 0 ++
        decodedBytes)
  else none

/- `argumentEncodeUInt256` -/
def argumentEncodeUInt256 (value : UInt256) : List UInt8 :=
  value.toList.reverse

/-
  `contractEncode` of `functionERC20Transfer` with an address
  in hex digits and a number
-/
def contractEncode
    (address : List UInt8)
    (value : UInt256) : Option (List UInt8) := do
  let target ← argumentEncodeAddress address
  some
    ((selector .transfer).drop 2 ++ encodeHex target ++
      encodeHex (argumentEncodeUInt256 value))

/- `functionERC20TransferDecodeAmount` -/
def functionERC20TransferDecodeAmount
    (data : List UInt8) :
    Option (BRCoreParseStatus × UInt256) :=
  let start := (selector .transfer).length + 1 * 64
  if start ≤ data.length then
    createUInt256Parse (data.drop start) 16
  else none

/- `functionERC20TransferDecodeAddress` -/
def functionERC20TransferDecodeAddress
    (data : List UInt8) : Option (List UInt8) := do
  let digits ← slice data ((selector .transfer).length + 24) 40
  some (cString "0x" ++ digits)

end Ethereum

------------------------------------------------------------
-- Transactions
------------------------------------------------------------

/- `BREthereumSignatureType` -/
inductive BREthereumSignatureType where
  | foo
  | recoverable
deriving DecidableEq

/- `BREthereumSignature`, with its union as `recoverable` -/
structure BREthereumSignature where
  type : BREthereumSignatureType
  v : UInt8
  r : List.Vector UInt8 32
  s : List.Vector UInt8 32
deriving DecidableEq

/- A chain id, in the type `int` of `BREthereumChainId` -/
structure BREthereumNetwork where
  chainId : Nat
  isInt : chainId < 2 ^ 31

/-
  `BREthereumTransactionRecord`, as far as it is encoded;
  `none` stands for `NULL` and for the empty address.
-/
structure BREthereumTransaction where
  sourceAddress : Option BREthereumAddress
  targetAddress : Option BREthereumAddress
  amount : BREthereumAmount
  gasPrice : UInt256
  gasLimit : UInt64
  nonce : UInt64
  data : Option (List UInt8)
  signature : BREthereumSignature
deriving DecidableEq

/- `BREthereumTransactionRLPType` -/
inductive BREthereumTransactionRLPType where
  | unsigned
  | signed
deriving DecidableEq

namespace Ethereum

/- The zeros of `calloc` -/
def emptySignature : BREthereumSignature where
  type := .foo
  v := 0
  r := List.Vector.replicate 32 0
  s := List.Vector.replicate 32 0

/- `provideData` of a new transaction -/
def provideData
    (targetAddress : BREthereumAddress)
    (amount : BREthereumAmount) : Option (List UInt8) :=
  match amount with
  | .ether _ => some []
  | .token _ value =>
      contractEncode (targetAddress.string.drop 2) value

/- `transactionCreate` -/
def transactionCreate
    (sourceAddress targetAddress : BREthereumAddress)
    (amount : BREthereumAmount)
    (gasPrice : UInt256)
    (gasLimit nonce : UInt64) :
    Option BREthereumTransaction := do
  let data ← provideData targetAddress amount
  some
    { sourceAddress := some sourceAddress
      targetAddress := some targetAddress
      amount := amount
      gasPrice := gasPrice
      gasLimit := gasLimit
      nonce := nonce
      data := some data
      signature := emptySignature }

/- `transactionSign` -/
def transactionSign
    (transaction : BREthereumTransaction)
    (signature : BREthereumSignature) :
    Option BREthereumTransaction :=
  if signature.type = .recoverable ∧
      (signature.v = 27 ∨ signature.v = 28) then
    some { transaction with signature := signature }
  else none

/- `transactionIsSigned` -/
def transactionIsSigned
    (transaction : BREthereumTransaction) : Bool :=
  match transaction.signature.type with
  | .foo =>
      transaction.signature.v ≠ 0 ∨
        transaction.signature.r.toList.take 3 ≠ [0, 0, 0]
  | .recoverable => transaction.signature.v ≠ 0

------------------------------------------------------------
-- Encoding
------------------------------------------------------------

/- `transactionEncodeNonce` -/
def transactionEncodeNonce (nonce : UInt64) : Encoder :=
  fun coder => some (rlpEncodeItemUInt64 coder nonce true)

/- `transactionDecodeNonce` -/
def transactionDecodeNonce
    (item : BRRlpItem)
    (coder : BRRlpCoder) : Option UInt64 :=
  rlpDecodeItemUInt64 coder item true

/- `transactionEncodeDataForHolding` -/
def transactionEncodeDataForHolding
    (transaction : BREthereumTransaction) : Encoder :=
  match transaction.data with
  | none => rlpEncodeItemString []
  | some data =>
      if data = [] then rlpEncodeItemString []
      else rlpEncodeItemHexString data

/- `transactionEncodeAddressForHolding` -/
def transactionEncodeAddressForHolding
    (transaction : BREthereumTransaction) : Encoder :=
  fun coder =>
    match transaction.amount with
    | .ether _ => do
        let targetAddress ← transaction.targetAddress
        addressRlpEncode targetAddress coder
    | .token token _ => do
        let contractAddress ← createAddress token.address
        addressRlpEncode contractAddress coder

/- The item of v with the chain id, a sum in the type `int` -/
def eip155V
    (v : UInt8)
    (network : BREthereumNetwork) : Option UInt64 :=
  if v.toNat + 8 + 2 * network.chainId < 2 ^ 31 then
    some (UInt64.ofNat (v.toNat + 8 + 2 * network.chainId))
  else none

/- The last three items of `transactionRlpEncodeItem` -/
def encodeSignature
    (signature : BREthereumSignature)
    (network : BREthereumNetwork)
    (type : BREthereumTransactionRLPType)
    (coder : BRRlpCoder) :
    Option (List BRRlpItem × BRRlpCoder) :=
  match type with
  | .unsigned => do
      let (item6, coder) :=
        rlpEncodeItemUInt64 coder
          (UInt64.ofNat network.chainId) true
      let (item7, coder) ← rlpEncodeItemString [] coder
      let (item8, coder) ← rlpEncodeItemString [] coder
      some ([item6, item7, item8], coder)
  | .signed => do
      let v ← eip155V signature.v network
      let (item6, coder) := rlpEncodeItemUInt64 coder v true
      let (item7, coder) :=
        rlpEncodeItemBytes coder signature.r.toList
      let (item8, coder) :=
        rlpEncodeItemBytes coder signature.s.toList
      some ([item6, item7, item8], coder)

/- `transactionRlpEncodeItem` -/
def transactionRlpEncodeItem
    (transaction : BREthereumTransaction)
    (network : BREthereumNetwork)
    (type : BREthereumTransactionRLPType) : Encoder :=
  fun coder => do
    let (item0, coder) ←
      transactionEncodeNonce transaction.nonce coder
    let (item1, coder) ←
      gasPriceRlpEncode transaction.gasPrice coder
    let (item2, coder) ← gasRlpEncode transaction.gasLimit coder
    let (item3, coder) ←
      transactionEncodeAddressForHolding transaction coder
    let (item4, coder) ←
      amountRlpEncode transaction.amount coder
    let (item5, coder) ←
      transactionEncodeDataForHolding transaction coder
    let (items, coder) ←
      encodeSignature transaction.signature network type coder
    rlpEncodeListItems coder
      ([item0, item1, item2, item3, item4, item5] ++ items)

/- `transactionEncodeRLP` -/
def transactionEncodeRLP
    (transaction : BREthereumTransaction)
    (network : BREthereumNetwork)
    (type : BREthereumTransactionRLPType) :
    Option (List UInt8) :=
  encodeRLP (transactionRlpEncodeItem transaction network type)

------------------------------------------------------------
-- Signatures
------------------------------------------------------------

/-
  `signatureExtractAddress`, with the hash and the recovery of
  the point of a public key as parameters
-/
def signatureExtractAddress
    (BRKeccak256 : List UInt8 → UInt256)
    (BRKeyRecoverPubKey :
      UInt256 → List UInt8 → Option (List.Vector UInt8 64))
    (signature : BREthereumSignature)
    (bytes : List UInt8) : Option BREthereumAddress :=
  match signature.type with
  | .foo => none
  | .recoverable => do
      let digest := BRKeccak256 bytes
      let key ←
        BRKeyRecoverPubKey digest
          (signature.v ::
            (signature.r.toList ++ signature.s.toList))
      some (createAddressDerived BRKeccak256 key)

/- `accountSignBytesWithPrivateKey` of a recoverable signature -/
def accountSignBytesWithPrivateKey
    {BRKey : Type}
    (BRKeccak256 : List UInt8 → UInt256)
    (BRKeyCompactSign :
      BRKey → UInt256 → List.Vector UInt8 65)
    (privateKey : BRKey)
    (bytes : List UInt8) : BREthereumSignature :=
  let messageDigest := BRKeccak256 bytes
  let signatureBytes :=
    (BRKeyCompactSign privateKey messageDigest).toList
  { type := .recoverable
    v := signatureBytes.headD 0
    r := hashOfBytes (signatureBytes.drop 1)
    s := hashOfBytes (signatureBytes.drop 33) }

def TRANSACTION_NONCE_IS_NOT_ASSIGNED : UInt64 :=
  UInt64.ofNat (2 ^ 64 - 1)

/-
  `walletSignTransactionWithPrivateKey`, with the next nonce of
  the address of the wallet
-/
def walletSignTransaction
    {BRKey : Type}
    (BRKeccak256 : List UInt8 → UInt256)
    (BRKeyCompactSign :
      BRKey → UInt256 → List.Vector UInt8 65)
    (network : BREthereumNetwork)
    (addressNonce : UInt64)
    (privateKey : BRKey)
    (transaction : BREthereumTransaction) :
    Option BREthereumTransaction := do
  let transaction :=
    { transaction with
      nonce :=
        if transaction.nonce =
            TRANSACTION_NONCE_IS_NOT_ASSIGNED then
          addressNonce
        else transaction.nonce }
  let bytes ← transactionEncodeRLP transaction network .unsigned
  transactionSign transaction
    (accountSignBytesWithPrivateKey BRKeccak256
      BRKeyCompactSign privateKey bytes)

------------------------------------------------------------
-- Decoding
------------------------------------------------------------

/- The target, the amount and the data of a transaction -/
structure Transfer where
  targetAddress : Option BREthereumAddress
  amount : BREthereumAmount
  data : Option (List UInt8)

/-
  Items 3 to 5 in `transactionRlpDecodeItem`; `none` inside
  stands for its return of `NULL`.  The data of a token
  transfer are not kept.
-/
def decodeTransfer
    (tokens : List BREthereumToken)
    (item3 item4 item5 : BRRlpItem)
    (coder : BRRlpCoder) : Option (Option Transfer) := do
  let strData ← rlpDecodeItemHexString item5 coder
  if strData = [] ∨ strData = cString "0x" then
    let targetAddress ← addressRlpDecode item3 coder
    let amount ← amountRlpDecodeAsEther item4 coder
    some
      (some
        { targetAddress := targetAddress
          amount := amount
          data := some strData })
  else
    let contractAddr ← addressRlpDecode item3 coder
    let contractAddr ← contractAddr
    match tokenLookup tokens contractAddr.string,
        contractLookupFunctionForEncoding strData with
    | some token, some .transfer => do
        let (status, amount) ←
          functionERC20TransferDecodeAmount strData
        let recvAddr ←
          functionERC20TransferDecodeAddress strData
        if status = .ok then
          some
            (some
              { targetAddress := createAddress recvAddr
                amount := .token token amount
                data := none })
        else some none
    | _, _ => some none

/- Items 6 to 8 in `transactionRlpDecodeItem` -/
def decodeSignature
    (network : BREthereumNetwork)
    (item6 item7 item8 : BRRlpItem)
    (coder : BRRlpCoder) :
    Option (Option BREthereumSignature) := do
  let eipChainId ← rlpDecodeItemUInt64 coder item6 true
  if eipChainId = UInt64.ofNat network.chainId then some none
  else if
      30 < eipChainId.toNat ∧
        2 ^ 31 ≤ 2 * network.chainId then
    none
  else
    let v :=
      if 30 < eipChainId.toNat then
        eipChainId - 8 - UInt64.ofNat (2 * network.chainId)
      else eipChainId
    let r ← fixedRlpDecode 32 item7 coder
    let s ← fixedRlpDecode 32 item8 coder
    some
      (some
        { type := .recoverable
          v := v.toUInt8
          r := r
          s := s })

section Recovery

variable (BRKeccak256 : List UInt8 → UInt256)
variable
  (BRKeyRecoverPubKey :
    UInt256 → List UInt8 → Option (List.Vector UInt8 64))

/- `transactionExtractAddress` -/
def transactionExtractAddress
    (transaction : BREthereumTransaction)
    (network : BREthereumNetwork) :
    Option (Option BREthereumAddress) :=
  if transactionIsSigned transaction then do
    let unsignedRLPData ←
      transactionEncodeRLP transaction network .unsigned
    some
      (signatureExtractAddress BRKeccak256 BRKeyRecoverPubKey
        transaction.signature unsignedRLPData)
  else some none

/-
  `transactionRlpDecodeItem`; `none` inside stands for its
  return of `NULL`.
-/
def transactionRlpDecodeItem
    (tokens : List BREthereumToken)
    (network : BREthereumNetwork)
    (item : BRRlpItem)
    (coder : BRRlpCoder) :
    Option (Option BREthereumTransaction) := do
  match ← decodeItems coder item with
  | [item0, item1, item2, item3, item4, item5, item6, item7,
      item8] =>
      let nonce ← transactionDecodeNonce item0 coder
      let gasPrice ← gasPriceRlpDecode item1 coder
      let gasLimit ← gasRlpDecode item2 coder
      match ← decodeTransfer tokens item3 item4 item5 coder with
      | none => some none
      | some transfer =>
          let transaction : BREthereumTransaction :=
            { sourceAddress := none
              targetAddress := transfer.targetAddress
              amount := transfer.amount
              gasPrice := gasPrice
              gasLimit := gasLimit
              nonce := nonce
              data := transfer.data
              signature :=
                { emptySignature with type := .recoverable } }
          match ← decodeSignature network item6 item7 item8
              coder with
          | none => some (some transaction)
          | some signature =>
              let transaction :=
                { transaction with signature := signature }
              let sourceAddress ←
                transactionExtractAddress BRKeccak256
                  BRKeyRecoverPubKey transaction network
              some
                (some
                  { transaction with
                    sourceAddress := sourceAddress })
  | _ => none

/- `transactionDecodeRLP` -/
def transactionDecodeRLP
    (tokens : List BREthereumToken)
    (network : BREthereumNetwork)
    (data : List UInt8) :
    Option (Option BREthereumTransaction) :=
  decodeRLP
    (transactionRlpDecodeItem BRKeccak256 BRKeyRecoverPubKey
      tokens network)
    data

end Recovery

end Ethereum

end PlusWallet
