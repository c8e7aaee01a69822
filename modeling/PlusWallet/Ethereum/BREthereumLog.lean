import PlusWallet.Rlp.Items

/-
  Logs and transaction receipts of `BREthereumLog.c` and
  `BREthereumTransactionReceipt.c`.

  Main declarations:
    * `BREthereumLogRecord`
    * `Ethereum.logEncodeRLP`, `Ethereum.logDecodeRLP`
    * `BREthereumTransactionReceiptRecord`
    * `Ethereum.transactionReceiptEncodeRLP`
    * `Ethereum.transactionReceiptDecodeRLP`
-/

namespace PlusWallet

open Bytes Rlp

------------------------------------------------------------
-- Fixed Arrays
------------------------------------------------------------

/- `BREthereumHash` -/
abbrev BREthereumHash := List.Vector UInt8 32

/- `BREthereumAddressRaw` -/
abbrev BREthereumAddressRaw := List.Vector UInt8 20

/- `BREthereumBloomFilter` -/
abbrev BREthereumBloomFilter := List.Vector UInt8 256

/- `BREthereumLogTopic` -/
abbrev BREthereumLogTopic := List.Vector UInt8 32

namespace Ethereum

/- `hashRlpEncode` -/
def hashRlpEncode (hash : BREthereumHash) : Encoder :=
  fixedRlpEncode hash

/- `hashRlpDecode` -/
def hashRlpDecode
    (item : BRRlpItem)
    (coder : BRRlpCoder) : Option BREthereumHash :=
  fixedRlpDecode 32 item coder

/- `addressRawRlpEncode` -/
def addressRawRlpEncode
    (address : BREthereumAddressRaw) : Encoder :=
  fixedRlpEncode address

/- `addressRawRlpDecode` -/
def addressRawRlpDecode
    (item : BRRlpItem)
    (coder : BRRlpCoder) : Option BREthereumAddressRaw :=
  fixedRlpDecode 20 item coder

/- `bloomFilterRlpEncode` -/
def bloomFilterRlpEncode
    (filter : BREthereumBloomFilter) : Encoder :=
  fixedRlpEncode filter

/- `bloomFilterRlpDecode` -/
def bloomFilterRlpDecode
    (item : BRRlpItem)
    (coder : BRRlpCoder) : Option BREthereumBloomFilter :=
  fixedRlpDecode 256 item coder

/- `logTopicRlpEncodeItem` -/
def logTopicRlpEncodeItem
    (topic : BREthereumLogTopic) : Encoder :=
  fixedRlpEncode topic

/- `logTopicRlpDecodeItem` -/
def logTopicRlpDecodeItem
    (item : BRRlpItem)
    (coder : BRRlpCoder) : Option BREthereumLogTopic :=
  fixedRlpDecode 32 item coder

end Ethereum

------------------------------------------------------------
-- Logs
------------------------------------------------------------

/-
  `BREthereumLogRecord`: the data that the pointer owns, and
  their number in the type of `dataCount`.
-/
structure BREthereumLogRecord where
  address : BREthereumAddressRaw
  topics : List BREthereumLogTopic
  data : List UInt8
  dataCount : UInt8
  counted : dataCount = UInt8.ofNat data.length
deriving DecidableEq

namespace Ethereum

/- A log with its count, as the decoder makes it. -/
def logOf
    (address : BREthereumAddressRaw)
    (topics : List BREthereumLogTopic)
    (data : List UInt8) : BREthereumLogRecord where
  address := address
  topics := topics
  data := data
  dataCount := UInt8.ofNat data.length
  counted := rfl

/- `logTopicsRlpEncodeItem` -/
def logTopicsRlpEncodeItem
    (log : BREthereumLogRecord) : Encoder := fun coder => do
  let (items, coder) ←
    encodeEach logTopicRlpEncodeItem log.topics coder
  rlpEncodeListItems coder items

/- `logTopicsRlpDecodeItem` -/
def logTopicsRlpDecodeItem
    (item : BRRlpItem)
    (coder : BRRlpCoder) :
    Option (List BREthereumLogTopic) := do
  let items ← decodeItems coder item
  decodeEach logTopicRlpDecodeItem items coder

/- `logRlpDecodeItem` -/
def logRlpDecodeItem
    (item : BRRlpItem)
    (coder : BRRlpCoder) : Option BREthereumLogRecord := do
  match ← decodeItems coder item with
  | [item0, item1, item2] =>
      let address ← addressRawRlpDecode item0 coder
      let topics ← logTopicsRlpDecodeItem item1 coder
      let data ← rlpDecodeItemBytes coder item2
      some (logOf address topics data)
  | _ => none

/- `logDecodeRLP` -/
def logDecodeRLP
    (data : List UInt8) : Option BREthereumLogRecord :=
  decodeRLP logRlpDecodeItem data

/- `logRlpEncodeItem` -/
def logRlpEncodeItem
    (log : BREthereumLogRecord) : Encoder := fun coder => do
  let (item0, coder) ← addressRawRlpEncode log.address coder
  let (item1, coder) ← logTopicsRlpEncodeItem log coder
  let data ← slice log.data 0 log.dataCount.toNat
  let (item2, coder) := rlpEncodeItemBytes coder data
  rlpEncodeListItems coder [item0, item1, item2]

/- `logEncodeRLP` -/
def logEncodeRLP
    (log : BREthereumLogRecord) : Option (List UInt8) :=
  encodeRLP (logRlpEncodeItem log)

end Ethereum

------------------------------------------------------------
-- Receipts
------------------------------------------------------------

/- `BREthereumTransactionReceiptRecord` -/
structure BREthereumTransactionReceiptRecord where
  gasUsed : UInt64
  logs : List BREthereumLogRecord
  bloomFilter : BREthereumBloomFilter
  stateRoot : List UInt8
deriving DecidableEq

namespace Ethereum

/- `transactionReceiptLogsRlpEncodeItem` -/
def transactionReceiptLogsRlpEncodeItem
    (receipt : BREthereumTransactionReceiptRecord) :
    Encoder := fun coder => do
  let (items, coder) ←
    encodeEach logRlpEncodeItem receipt.logs coder
  rlpEncodeListItems coder items

/- `transactionReceiptLogsRlpDecodeItem` -/
def transactionReceiptLogsRlpDecodeItem
    (item : BRRlpItem)
    (coder : BRRlpCoder) :
    Option (List BREthereumLogRecord) := do
  let items ← decodeItems coder item
  decodeEach logRlpDecodeItem items coder

/- `transactionReceiptRlpDecodeItem` -/
def transactionReceiptRlpDecodeItem
    (item : BRRlpItem)
    (coder : BRRlpCoder) :
    Option BREthereumTransactionReceiptRecord := do
  match ← decodeItems coder item with
  | [item0, item1, item2, item3] =>
      let stateRoot ← rlpDecodeItemBytes coder item0
      let gasUsed ← rlpDecodeItemUInt64 coder item1 false
      let bloomFilter ← bloomFilterRlpDecode item2 coder
      let logs ←
        transactionReceiptLogsRlpDecodeItem item3 coder
      some
        { gasUsed := gasUsed
          logs := logs
          bloomFilter := bloomFilter
          stateRoot := stateRoot }
  | _ => none

/- `transactionReceiptDecodeRLP` -/
def transactionReceiptDecodeRLP
    (data : List UInt8) :
    Option BREthereumTransactionReceiptRecord :=
  decodeRLP transactionReceiptRlpDecodeItem data

/- `transactionReceiptRlpEncodeItem` -/
def transactionReceiptRlpEncodeItem
    (receipt : BREthereumTransactionReceiptRecord) :
    Encoder := fun coder => do
  let (item0, coder) :=
    rlpEncodeItemBytes coder receipt.stateRoot
  let (item1, coder) :=
    rlpEncodeItemUInt64 coder receipt.gasUsed false
  let (item2, coder) ←
    bloomFilterRlpEncode receipt.bloomFilter coder
  let (item3, coder) ←
    transactionReceiptLogsRlpEncodeItem receipt coder
  rlpEncodeListItems coder [item0, item1, item2, item3]

/- `transactionReceiptEncodeRLP` -/
def transactionReceiptEncodeRLP
    (receipt : BREthereumTransactionReceiptRecord) :
    Option (List UInt8) :=
  encodeRLP (transactionReceiptRlpEncodeItem receipt)

end Ethereum

end PlusWallet
