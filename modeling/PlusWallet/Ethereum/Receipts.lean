import PlusWallet.Ethereum.BREthereumLog

/-
  Encoding logs and receipts and reading them back.

  Main declarations:
    * `Ethereum.logTree`, `Ethereum.receiptTree`
    * `Ethereum.logRlpDecodeItem_eq`
    * `Ethereum.ReceiptFits`
    * `Ethereum.receipt_roundTrip_iff`
-/

namespace PlusWallet

open Bytes Rlp

namespace Ethereum

------------------------------------------------------------
-- Trees of Records
------------------------------------------------------------

/- The tree of an array of fixed arrays. -/
def fixedTree
    {size : Nat}
    (bytes : List.Vector UInt8 size) : RlpTree :=
  .leaf bytes.toList

def topicsTree (topics : List BREthereumLogTopic) : RlpTree :=
  .node (topics.map fixedTree)

/- The data of a log, as far as its count goes. -/
def countedData (log : BREthereumLogRecord) : List UInt8 :=
  log.data.take log.dataCount.toNat

def logTree (log : BREthereumLogRecord) : RlpTree :=
  .node
    [fixedTree log.address, topicsTree log.topics,
      .leaf (countedData log)]

def receiptTree
    (receipt : BREthereumTransactionReceiptRecord) : RlpTree :=
  .node
    [.leaf receipt.stateRoot,
      .leaf (uint64Bytes receipt.gasUsed false),
      fixedTree receipt.bloomFilter,
      .node (receipt.logs.map logTree)]

/- A log without the data that its count leaves out. -/
def keptLog (log : BREthereumLogRecord) : BREthereumLogRecord :=
  logOf log.address log.topics (countedData log)

def keptReceipt
    (receipt : BREthereumTransactionReceiptRecord) :
    BREthereumTransactionReceiptRecord :=
  { receipt with logs := receipt.logs.map keptLog }

------------------------------------------------------------
-- Encoders
------------------------------------------------------------

theorem count_le
    (log : BREthereumLogRecord) :
    log.dataCount.toNat ≤ log.data.length := by
  rw [log.counted, UInt8.toNat_ofNat']
  exact Nat.mod_le _ _

theorem slice_countedData
    (log : BREthereumLogRecord) :
    slice log.data 0 log.dataCount.toNat =
      some (countedData log) := by
  unfold slice
  rw [if_pos (by rw [Nat.zero_add]; exact count_le log)]
  rfl

theorem logTopicsRlpEncodeItem_eq
    (log : BREthereumLogRecord)
    (coder : BRRlpCoder) :
    logTopicsRlpEncodeItem log coder =
      encodeTree coder (topicsTree log.topics) := by
  have hTopic :
      ∀ topic coder,
        logTopicRlpEncodeItem topic coder =
          encodeTree coder (fixedTree topic) :=
    fixedRlpEncode_eq
  unfold logTopicsRlpEncodeItem topicsTree encodeTree
  rw [encodeEach_eq hTopic]

theorem logRlpEncodeItem_eq
    (log : BREthereumLogRecord)
    (coder : BRRlpCoder) :
    logRlpEncodeItem log coder =
      encodeTree coder (logTree log) := by
  unfold logRlpEncodeItem logTree
  simp only [addressRawRlpEncode, fixedRlpEncode_eq,
    logTopicsRlpEncodeItem_eq, slice_countedData, encodeTree,
    encodeTrees, fixedTree, Option.bind_eq_bind,
    Option.bind_some, Option.bind_assoc]

theorem transactionReceiptRlpEncodeItem_eq
    (receipt : BREthereumTransactionReceiptRecord)
    (coder : BRRlpCoder) :
    transactionReceiptRlpEncodeItem receipt coder =
      encodeTree coder (receiptTree receipt) := by
  unfold transactionReceiptRlpEncodeItem receiptTree
  simp only [transactionReceiptLogsRlpEncodeItem,
    encodeEach_eq logRlpEncodeItem_eq, bloomFilterRlpEncode,
    fixedRlpEncode_eq, encodeTree, encodeTrees, fixedTree,
    encodeUInt64_eq, Option.bind_eq_bind, Option.bind_some,
    Option.bind_assoc]

------------------------------------------------------------
-- Decoders
------------------------------------------------------------

variable {item : BRRlpItem}
variable {coder : BRRlpCoder}

theorem logTopicsRlpDecodeItem_eq
    {topics : List BREthereumLogTopic}
    (hReads : Reads coder item (topicsTree topics)) :
    logTopicsRlpDecodeItem item coder = some topics := by
  rcases hReads.node with ⟨items, hItems, hAll⟩
  have hTopics :
      decodeEach logTopicRlpDecodeItem items coder =
        some (topics.map id) := by
    apply decodeEach_eq ?_ hAll
    intro topic _ item hTopic
    exact hTopic.fixed
  unfold logTopicsRlpDecodeItem
  rw [hItems, Option.bind_eq_bind, Option.bind_some, hTopics,
    List.map_id]

/- A decoded log has the data that the count kept. -/
theorem logRlpDecodeItem_eq
    {log : BREthereumLogRecord}
    (hReads : Reads coder item (logTree log)) :
    logRlpDecodeItem item coder = some (keptLog log) := by
  rcases hReads.node with ⟨items, hItems, hAll⟩
  rcases hAll with
    _ | ⟨hAddress, _ | ⟨hTopics, _ | ⟨hData, _ | _⟩⟩⟩
  unfold logRlpDecodeItem
  simp only [hItems, addressRawRlpDecode, hAddress.fixed,
    logTopicsRlpDecodeItem_eq hTopics, hData.leaf.2,
    Option.bind_eq_bind, Option.bind_some]
  rfl

theorem transactionReceiptRlpDecodeItem_eq
    {receipt : BREthereumTransactionReceiptRecord}
    (hReads : Reads coder item (receiptTree receipt)) :
    transactionReceiptRlpDecodeItem item coder =
      some (keptReceipt receipt) := by
  rcases hReads.node with ⟨items, hItems, hAll⟩
  rcases hAll with
    _ | ⟨hState, _ | ⟨hGas, _ | ⟨hBloom,
      _ | ⟨hLogs, _ | _⟩⟩⟩⟩
  rcases hLogs.node with ⟨logs, hLogItems, hAllLogs⟩
  have hDecode :
      decodeEach logRlpDecodeItem logs coder =
        some (receipt.logs.map keptLog) := by
    apply decodeEach_eq ?_ hAllLogs
    intro log _ item hLog
    exact logRlpDecodeItem_eq hLog
  unfold transactionReceiptRlpDecodeItem
  simp only [hItems, hState.leaf.2, hGas.uint64Bytes,
    bloomFilterRlpDecode, hBloom.fixed,
    transactionReceiptLogsRlpDecodeItem, hLogItems, hDecode,
    Option.bind_eq_bind, Option.bind_some]
  rfl

------------------------------------------------------------
-- Sizes
------------------------------------------------------------

theorem countedData_length
    (log : BREthereumLogRecord) :
    (countedData log).length < 256 := by
  have hCount := UInt8.toNat_lt log.dataCount
  have hTake := List.length_take_le log.dataCount.toNat log.data
  unfold countedData
  omega

theorem allFit_fixed
    {size : Nat}
    (arrays : List (List.Vector UInt8 size)) :
    AllFit (arrays.map fixedTree) := by
  induction arrays with
  | nil =>
      rw [List.map_nil, AllFit]
      trivial
  | cons array arrays ih =>
      rw [List.map_cons, AllFit, fixedTree, Fits]
      exact ⟨trivial, ih⟩

theorem encodedSizes_topics
    (topics : List BREthereumLogTopic) :
    encodedSizes (topics.map fixedTree) ≤ 41 * topics.length := by
  induction topics with
  | nil =>
      rw [List.map_nil, encodedSizes]
      exact Nat.zero_le _
  | cons topic topics ih =>
      have hLength : topic.toList.length = 32 :=
        topic.toList_length
      have hTopic :=
        encodedSize_leaf_le
          (show topic.toList.length < 2 ^ 64 by omega)
      rw [List.map_cons, encodedSizes, fixedTree,
        List.length_cons]
      omega

/- Memory has room for any log that can be counted. -/
theorem log_stored_iff
    (log : BREthereumLogRecord) :
    Stored (logTree log) ↔ log.topics.length < 2 ^ 31 := by
  rw [stored_iff, logTree, topicsTree, Fits, AllFit, AllFit,
    AllFit, AllFit, Fits, Fits, fixedTree, Fits,
    List.length_map]
  constructor
  · rintro ⟨-, -, -, hTopics, -⟩
    exact hTopics.1
  · intro hTopics
    have hSizes := encodedSizes_topics log.topics
    have hTopicsSize :=
      lengthSize_le
        (show encodedSizes (log.topics.map fixedTree) <
          2 ^ 64 by omega)
    have hAddressLength : log.address.toList.length = 20 :=
      log.address.toList_length
    have hAddress :=
      encodedSize_leaf_le
        (show log.address.toList.length < 2 ^ 64 by omega)
    have hCounted := countedData_length log
    have hData :=
      encodedSize_leaf_le
        (show (countedData log).length < 2 ^ 64 by omega)
    have hTopicsTree :
        encodedSize (.node (log.topics.map fixedTree)) < 2 ^ 40 := by
      rw [encodedSize]
      omega
    have hSum :
        encodedSizes
            [.leaf log.address.toList,
              .node (log.topics.map fixedTree),
              .leaf (countedData log)] <
          2 ^ 41 := by
      rw [encodedSizes, encodedSizes, encodedSizes, encodedSizes]
      omega
    have hSumSize :=
      lengthSize_le
        (show
          encodedSizes
              [.leaf log.address.toList,
                .node (log.topics.map fixedTree),
                .leaf (countedData log)] <
            2 ^ 64 by omega)
    refine
      ⟨by simp, ?_, trivial,
        ⟨hTopics, by omega, allFit_fixed log.topics⟩, trivial,
        trivial⟩
    rw [encodedSize]
    omega

/-
  Counts that an `int` index reaches, and memory for the bytes
  of the receipt
-/
def ReceiptStored
    (receipt : BREthereumTransactionReceiptRecord) : Prop :=
  receipt.logs.length < 2 ^ 31 ∧
    (∀ log ∈ receipt.logs, log.topics.length < 2 ^ 31) ∧
    encodedSize (receiptTree receipt) < 2 ^ 64

theorem allStored_logs
    (logs : List BREthereumLogRecord) :
    AllStored (logs.map logTree) ↔
      ∀ log ∈ logs, log.topics.length < 2 ^ 31 := by
  induction logs with
  | nil =>
      rw [List.map_nil, AllStored]
      simp
  | cons log logs ih =>
      rw [List.map_cons, AllStored, log_stored_iff, ih,
        List.forall_mem_cons]

theorem receipt_stored_iff
    (receipt : BREthereumTransactionReceiptRecord) :
    Stored (receiptTree receipt) ↔ ReceiptStored receipt := by
  have hSize := memory_iff (receiptTree receipt)
  unfold ReceiptStored
  rw [← hSize]
  unfold receiptTree
  rw [Stored, AllStored, AllStored, AllStored, AllStored,
    AllStored, Stored, Stored, fixedTree, Stored, Stored,
    List.length_map, allStored_logs]
  constructor
  · rintro ⟨-, hMemory, -, -, -, ⟨hCount, -, hLogs⟩, -⟩
    exact ⟨hCount, hLogs, hMemory⟩
  · rintro ⟨hCount, hLogs, hMemory⟩
    refine
      ⟨by simp, hMemory, trivial, trivial, trivial,
        ⟨hCount, ?_, hLogs⟩, trivial⟩
    -- the list of the logs is a part of the receipt
    apply lt_of_le_of_lt ?_ hMemory
    simp only [encoding, encodings, List.length_append]
    omega

------------------------------------------------------------
-- Round Trips
------------------------------------------------------------

/- What comes back of a log. -/
theorem log_roundTrip_eq
    (log : BREthereumLogRecord) :
    (logEncodeRLP log).bind logDecodeRLP =
      if log.topics.length < 2 ^ 31 then some (keptLog log)
      else none := by
  split_ifs with hTopics
  · have hStored := (log_stored_iff log).mpr hTopics
    have hEncode :=
      (encodeRLP_eq_some_iff (logRlpEncodeItem_eq log) _).mpr
        ⟨hStored, rfl⟩
    have hMemory : (encoding (logTree log)).length < 2 ^ 64 := by
      unfold logTree at hStored ⊢
      rw [Stored] at hStored
      exact hStored.2.1
    rcases decodeRLP_encoding hMemory hStored with
      ⟨item, coder, hReads, hDecode⟩
    unfold logEncodeRLP logDecodeRLP
    rw [hEncode, Option.bind_some, hDecode,
      logRlpDecodeItem_eq hReads]
  · cases hEncode : logEncodeRLP log with
    | none => rfl
    | some data =>
        have hStored :=
          (encodeRLP_eq_some_iff (logRlpEncodeItem_eq log)
            data).mp hEncode
        exact absurd ((log_stored_iff log).mp hStored.1) hTopics

/- A log keeps its data when its count does. -/
theorem keptLog_eq_iff
    (log : BREthereumLogRecord) :
    keptLog log = log ↔ log.data.length < 256 := by
  constructor
  · intro hSame
    have hData := congrArg BREthereumLogRecord.data hSame
    have hCounted : countedData log = log.data := hData
    rw [← hCounted]
    exact countedData_length log
  · intro hShort
    have hCount : log.dataCount.toNat = log.data.length := by
      rw [log.counted, UInt8.toNat_ofNat',
        Nat.mod_eq_of_lt hShort]
    have hData : countedData log = log.data := by
      unfold countedData
      rw [hCount, List.take_length]
    rcases log with ⟨address, topics, data, dataCount, rfl⟩
    unfold keptLog
    rw [hData]
    rfl

theorem receipt_roundTrip_eq
    (receipt : BREthereumTransactionReceiptRecord) :
    ((transactionReceiptEncodeRLP receipt).bind
          transactionReceiptDecodeRLP =
        some (keptReceipt receipt) ∧ ReceiptStored receipt) ∨
      (transactionReceiptEncodeRLP receipt = none ∧
        ¬ ReceiptStored receipt) := by
  by_cases hStored : Stored (receiptTree receipt)
  · left
    have hEncode :=
      (encodeRLP_eq_some_iff
        (transactionReceiptRlpEncodeItem_eq receipt) _).mpr
        ⟨hStored, rfl⟩
    have hFits := (receipt_stored_iff receipt).mp hStored
    rcases decodeRLP_encoding
        ((memory_iff _).mpr hFits.2.2) hStored with
      ⟨item, coder, hReads, hDecode⟩
    unfold transactionReceiptEncodeRLP
      transactionReceiptDecodeRLP
    rw [hEncode, Option.bind_some, hDecode,
      transactionReceiptRlpDecodeItem_eq hReads]
    exact ⟨rfl, hFits⟩
  · right
    refine
      ⟨?_, fun hFits =>
        hStored ((receipt_stored_iff receipt).mpr hFits)⟩
    cases hEncode : transactionReceiptEncodeRLP receipt with
    | none => rfl
    | some data =>
        exact
          absurd
            ((encodeRLP_eq_some_iff
              (transactionReceiptRlpEncodeItem_eq receipt)
              data).mp hEncode).1
            hStored

theorem keptReceipt_eq_iff
    (receipt : BREthereumTransactionReceiptRecord) :
    keptReceipt receipt = receipt ↔
      ∀ log ∈ receipt.logs, log.data.length < 256 := by
  have hLogs :
      keptReceipt receipt = receipt ↔
        receipt.logs.map keptLog = receipt.logs := by
    constructor
    · intro hSame
      exact
        congrArg BREthereumTransactionReceiptRecord.logs hSame
    · intro hSame
      unfold keptReceipt
      rw [hSame]
  have hEach :
      receipt.logs.map keptLog = receipt.logs.map id ↔
        ∀ log ∈ receipt.logs, keptLog log = id log :=
    List.map_inj_left
  rw [List.map_id] at hEach
  rw [hLogs, hEach]
  simp only [id, keptLog_eq_iff]

/- A log with 256 bytes of data loses all of them. -/
def longLog : BREthereumLogRecord :=
  logOf (List.Vector.replicate 20 0) [] (List.replicate 256 1)

end Ethereum

end PlusWallet
