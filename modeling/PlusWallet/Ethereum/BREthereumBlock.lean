import PlusWallet.Ethereum.BREthereumLog
import PlusWallet.Ethereum.BREthereumTransaction

/-
  Blocks and their headers, of `BREthereumBlock.c`.

  Main declarations:
    * `BREthereumBlockHeader`, `BREthereumBlock`
    * `Ethereum.blockHeaderEncodeRLP`
    * `Ethereum.blockHeaderDecodeRLP`
    * `Ethereum.createBlock`
    * `Ethereum.blockEncodeRLP`, `Ethereum.blockDecodeRLP`
-/

namespace PlusWallet

open Bytes Rlp

/-
  `BREthereumBlockHeaderRecord` with the seed hash that
  `BLOCK_HEADER_NEEDS_SEED_HASH` asks for
-/
structure BREthereumBlockHeader where
  parentHash : BREthereumHash
  ommersHash : BREthereumHash
  beneficiary : BREthereumAddressRaw
  stateRoot : BREthereumHash
  transactionsRoot : BREthereumHash
  receiptsRoot : BREthereumHash
  logsBloom : BREthereumBloomFilter
  difficulty : UInt64
  number : UInt64
  gasLimit : UInt64
  gasUsed : UInt64
  timestamp : UInt64
  extraData : List.Vector UInt8 32
  extraDataCount : UInt8
  seedHash : BREthereumHash
  mixHash : BREthereumHash
  nonce : UInt64
  hash : BREthereumHash
deriving DecidableEq

/- `BREthereumBlockRecord`, with `none` for `NULL` -/
structure BREthereumBlock where
  header : Option BREthereumBlockHeader
  ommers : List BREthereumBlockHeader
  transactions : List (Option BREthereumTransaction)
deriving DecidableEq

/-
  How a decoder can go wrong: by a check that fails or a read
  beyond the bytes, or by a write beyond an array.
-/
inductive BlockFault where
  | failed
  | overrun
deriving DecidableEq

namespace Ethereum

------------------------------------------------------------
-- Headers
------------------------------------------------------------

/- `hashCreateEmpty` -/
def hashCreateEmpty : BREthereumHash :=
  List.Vector.replicate 32 0

/- `extraDataCount` bytes of the array of 32 -/
def extraDataRlpEncode
    (header : BREthereumBlockHeader) : Encoder := fun coder => do
  let extraData ←
    slice header.extraData.toList 0 header.extraDataCount.toNat
  some (rlpEncodeItemBytes coder extraData)

/- The items behind the first 13 -/
def encodeNonce
    (header : BREthereumBlockHeader)
    (withNonce : Bool)
    (coder : BRRlpCoder) :
    Option (List BRRlpItem × BRRlpCoder) :=
  if withNonce then do
    let (item13, coder) ← hashRlpEncode header.seedHash coder
    let (item14, coder) ← hashRlpEncode header.mixHash coder
    let (item15, coder) :=
      rlpEncodeItemUInt64 coder header.nonce false
    some ([item13, item14, item15], coder)
  else some ([], coder)

/- `blockHeaderRlpEncodeItem` -/
def blockHeaderRlpEncodeItem
    (header : BREthereumBlockHeader)
    (withNonce : Bool) : Encoder := fun coder => do
  let (item0, coder) ← hashRlpEncode header.parentHash coder
  let (item1, coder) ← hashRlpEncode header.ommersHash coder
  let (item2, coder) ←
    addressRawRlpEncode header.beneficiary coder
  let (item3, coder) ← hashRlpEncode header.stateRoot coder
  let (item4, coder) ←
    hashRlpEncode header.transactionsRoot coder
  let (item5, coder) ← hashRlpEncode header.receiptsRoot coder
  let (item6, coder) ←
    bloomFilterRlpEncode header.logsBloom coder
  let (item7, coder) :=
    rlpEncodeItemUInt64 coder header.difficulty false
  let (item8, coder) :=
    rlpEncodeItemUInt64 coder header.number false
  let (item9, coder) :=
    rlpEncodeItemUInt64 coder header.gasLimit false
  let (item10, coder) :=
    rlpEncodeItemUInt64 coder header.gasUsed false
  let (item11, coder) :=
    rlpEncodeItemUInt64 coder header.timestamp false
  let (item12, coder) ← extraDataRlpEncode header coder
  let (items, coder) ← encodeNonce header withNonce coder
  rlpEncodeListItems coder
    ([item0, item1, item2, item3, item4, item5, item6, item7,
        item8, item9, item10, item11, item12] ++
      items)

/- `blockHeaderEncodeRLP` -/
def blockHeaderEncodeRLP
    (header : BREthereumBlockHeader)
    (withNonce : Bool) : Option (List UInt8) :=
  encodeRLP (blockHeaderRlpEncodeItem header withNonce)

/- A result that is there, unless a check has failed. -/
def checked
    {Value : Type}
    (value : Option Value) : Except BlockFault Value :=
  match value with
  | none => .error .failed
  | some value => .ok value

/- `memset` and `memcpy` into the 32 bytes of `extraData` -/
def copyExtraData
    (bytes : List UInt8) :
    Except BlockFault (List.Vector UInt8 32) :=
  if hFits : bytes.length ≤ 32 then
    .ok
      ⟨bytes ++ List.replicate (32 - bytes.length) 0, by
        rw [List.length_append, List.length_replicate]
        omega⟩
  else .error .overrun

/-
  `blockHeaderRlpDecodeItem`: 13 items, or 16 with the seed
  hash, the mix hash and the nonce
-/
def blockHeaderRlpDecodeItem
    (item : BRRlpItem)
    (coder : BRRlpCoder) :
    Except BlockFault BREthereumBlockHeader := do
  match ← checked (decodeItems coder item) with
  | item0 :: item1 :: item2 :: item3 :: item4 :: item5 ::
      item6 :: item7 :: item8 :: item9 :: item10 :: item11 ::
      item12 :: items =>
      if items.length = 0 ∨ items.length = 3 then
        let parentHash ← checked (hashRlpDecode item0 coder)
        let ommersHash ← checked (hashRlpDecode item1 coder)
        let beneficiary ←
          checked (addressRawRlpDecode item2 coder)
        let stateRoot ← checked (hashRlpDecode item3 coder)
        let transactionsRoot ←
          checked (hashRlpDecode item4 coder)
        let receiptsRoot ← checked (hashRlpDecode item5 coder)
        let logsBloom ←
          checked (bloomFilterRlpDecode item6 coder)
        let difficulty ←
          checked (rlpDecodeItemUInt64 coder item7 false)
        let number ←
          checked (rlpDecodeItemUInt64 coder item8 false)
        let gasLimit ←
          checked (rlpDecodeItemUInt64 coder item9 false)
        let gasUsed ←
          checked (rlpDecodeItemUInt64 coder item10 false)
        let timestamp ←
          checked (rlpDecodeItemUInt64 coder item11 false)
        let bytes ← checked (rlpDecodeItemBytes coder item12)
        let extraData ← copyExtraData bytes
        let header : BREthereumBlockHeader :=
          { parentHash := parentHash
            ommersHash := ommersHash
            beneficiary := beneficiary
            stateRoot := stateRoot
            transactionsRoot := transactionsRoot
            receiptsRoot := receiptsRoot
            logsBloom := logsBloom
            difficulty := difficulty
            number := number
            gasLimit := gasLimit
            gasUsed := gasUsed
            timestamp := timestamp
            extraData := extraData
            extraDataCount := UInt8.ofNat bytes.length
            seedHash := hashCreateEmpty
            mixHash := hashCreateEmpty
            nonce := 0
            hash := hashCreateEmpty }
        match items with
        | [item13, item14, item15] => do
            let seedHash ← checked (hashRlpDecode item13 coder)
            let mixHash ← checked (hashRlpDecode item14 coder)
            let nonce ←
              checked (rlpDecodeItemUInt64 coder item15 false)
            pure
              { header with
                seedHash := seedHash
                mixHash := mixHash
                nonce := nonce }
        | _ => pure header
      else .error .failed
  | _ => .error .failed

section Hash

variable (BRKeccak256 : List UInt8 → UInt256)

/- `blockHeaderDecodeRLP`, with the hash of a full header -/
def blockHeaderDecodeRLP
    (data : List UInt8) :
    Except BlockFault BREthereumBlockHeader := do
  let (item, coder) ← checked (rlpGetItem rlpCoderCreate data)
  let header ← blockHeaderRlpDecodeItem item coder
  if header.nonce ≠ 0 then
    pure { header with hash := BRKeccak256 data }
  else pure header

end Hash

------------------------------------------------------------
-- Blocks
------------------------------------------------------------

/- `createBlock`: the header is not stored in the block. -/
def createBlock
    (_header : BREthereumBlockHeader)
    (ommers : List BREthereumBlockHeader)
    (transactions : List BREthereumTransaction) :
    BREthereumBlock where
  header := none
  ommers := ommers
  transactions := transactions.map some

/- `blockTransactionsRlpEncodeItem` -/
def blockTransactionsRlpEncodeItem
    (block : BREthereumBlock)
    (network : BREthereumNetwork) : Encoder := fun coder => do
  let (items, coder) ←
    encodeEach
      (fun transaction coder => do
        let transaction ← transaction
        transactionRlpEncodeItem transaction network .signed
          coder)
      block.transactions coder
  rlpEncodeListItems coder items

/- `blockOmmersRlpEncodeItem` -/
def blockOmmersRlpEncodeItem
    (block : BREthereumBlock) : Encoder := fun coder => do
  let (items, coder) ←
    encodeEach
      (fun ommer => blockHeaderRlpEncodeItem ommer true)
      block.ommers coder
  rlpEncodeListItems coder items

/- `blockRlpEncodeItem`, which reads through the header -/
def blockRlpEncodeItem
    (block : BREthereumBlock)
    (network : BREthereumNetwork) : Encoder := fun coder => do
  let header ← block.header
  let (item0, coder) ← blockHeaderRlpEncodeItem header true coder
  let (item1, coder) ←
    blockTransactionsRlpEncodeItem block network coder
  let (item2, coder) ← blockOmmersRlpEncodeItem block coder
  rlpEncodeListItems coder [item0, item1, item2]

/- `blockEncodeRLP` -/
def blockEncodeRLP
    (block : BREthereumBlock)
    (network : BREthereumNetwork) : Option (List UInt8) :=
  encodeRLP (blockRlpEncodeItem block network)

section Recovery

variable (BRKeccak256 : List UInt8 → UInt256)
variable
  (BRKeyRecoverPubKey :
    UInt256 → List UInt8 → Option (List.Vector UInt8 64))

/- `blockTransactionsRlpDecodeItem` -/
def blockTransactionsRlpDecodeItem
    (tokens : List BREthereumToken)
    (network : BREthereumNetwork)
    (item : BRRlpItem)
    (coder : BRRlpCoder) :
    Option (List (Option BREthereumTransaction)) := do
  let items ← decodeItems coder item
  decodeEach
    (transactionRlpDecodeItem BRKeccak256 BRKeyRecoverPubKey
      tokens network)
    items coder

/- `blockOmmersRlpDecodeItem` -/
def blockOmmersRlpDecodeItem
    (item : BRRlpItem)
    (coder : BRRlpCoder) :
    Except BlockFault (List BREthereumBlockHeader) := do
  let items ← checked (decodeItems coder item)
  items.mapM fun item => blockHeaderRlpDecodeItem item coder

/- `blockRlpDecodeItem` -/
def blockRlpDecodeItem
    (tokens : List BREthereumToken)
    (network : BREthereumNetwork)
    (item : BRRlpItem)
    (coder : BRRlpCoder) :
    Except BlockFault BREthereumBlock := do
  match ← checked (decodeItems coder item) with
  | [item0, item1, item2] =>
      let header ← blockHeaderRlpDecodeItem item0 coder
      let transactions ←
        checked
          (blockTransactionsRlpDecodeItem BRKeccak256
            BRKeyRecoverPubKey tokens network item1 coder)
      let ommers ← blockOmmersRlpDecodeItem item2 coder
      pure
        { header := some header
          ommers := ommers
          transactions := transactions }
  | _ => .error .failed

/- `blockDecodeRLP` -/
def blockDecodeRLP
    (tokens : List BREthereumToken)
    (network : BREthereumNetwork)
    (data : List UInt8) : Except BlockFault BREthereumBlock := do
  let (item, coder) ← checked (rlpGetItem rlpCoderCreate data)
  blockRlpDecodeItem BRKeccak256 BRKeyRecoverPubKey tokens
    network item coder

end Recovery

end Ethereum

end PlusWallet
