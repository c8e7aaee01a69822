import PlusWallet.MerkleBlock.Parse

/-
  The tables of `CoreDatabase.swift` and the calls that write
  and read them.  Every queued statement is executed, and a
  statement that breaks a key rolls its transaction back.

  A result of `none` stands for a run that ends the process: a
  trap of the arithmetic, a `nil` pointer that is followed, or
  `exit(0)`.

  Main declarations:
    * `CoreDatabase`
    * `CoreDatabase.saveBlocks`, `CoreDatabase.loadBlocks`
    * `CoreDatabase.txAdded`, `CoreDatabase.txUpdated`,
      `CoreDatabase.txDeleted`
    * `CoreDatabase.loadTransactions`
-/

namespace PlusWallet

open Bytes

------------------------------------------------------------
-- Numbers
------------------------------------------------------------

/- `NSTimeIntervalSince1970` -/
def NSTimeIntervalSince1970 : Nat := 978307200

/- `subtractingReportingOverflow` of `Int32` -/
def subtractingReportingOverflow
    (number other : Int32) : Int32 × Bool :=
  let difference := number.toInt - other.toInt
  (number - other,
    decide (difference < -(2 ^ 31) ∨ 2 ^ 31 ≤ difference))

/- `addingReportingOverflow` of `UInt32` -/
def addingReportingOverflow
    (number other : UInt32) : UInt32 × Bool :=
  (number + other,
    decide (2 ^ 32 ≤ number.toNat + other.toNat))

/- The next primary key; the addition traps. -/
def nextKey (pk : Int32) : Option Int32 :=
  if pk.toInt + 1 < 2 ^ 31 then some (pk + 1) else none

/-
  The length of an array of items of a size as an `Int32`.  The
  conversion traps, and a negative length is not defined.
-/
def blobLength (size : Nat) (count : UInt64) : Option Nat :=
  if size * count.toNat < 2 ^ 31 then
    some (size * count.toNat)
  else none

------------------------------------------------------------
-- Tables
------------------------------------------------------------

/- A row of `ZBRMERKLEBLOCKENTITY` -/
structure BlockRow where
  pk : Int32
  height : Int32
  nonce : Int32
  target : Int32
  totalTransactions : Int32
  version : Int32
  timestamp : Int32
  blockHash : List UInt8
  flags : List UInt8
  hashes : List UInt8
  merkleRoot : List UInt8
  prevBlock : List UInt8
deriving DecidableEq

/- A row of `ZBRTXMETADATAENTITY` -/
structure TxRow where
  pk : Int32
  type : Nat
  blob : List UInt8
  txHash : UInt256
deriving DecidableEq

/-
  The tables, each in the order of its primary keys, and the
  highest keys that `Z_PRIMARYKEY` gives for them.
-/
structure CoreDatabase where
  transactions : List TxRow
  txMax : Option Int32
  blocks : List BlockRow
  blockMax : Option Int32
deriving DecidableEq

/-
  The memory behind the array literals `[b.pointee.flags]` and
  `[b.pointee.hashes]`.  Each array holds one pointer, and what
  is bound are the bytes of that array and not those that the
  pointer leads to.
-/
structure PointerArrays where
  flags : BRMerkleBlock UInt256 → Nat → UInt8
  hashes : BRMerkleBlock UInt256 → Nat → UInt8

namespace CoreDatabase

------------------------------------------------------------
-- Saving Blocks
------------------------------------------------------------

/- The ends of `saveBlocks` before its last statement. -/
inductive Stop where
  | crash
  | rollback

/- The row of a block. -/
def blockRow
    (arrays : PointerArrays)
    (b : BRMerkleBlock UInt256)
    (timestamp pk : Int32)
    (flagsLen hashesLen : Nat) : BlockRow where
  pk := pk
  height := (UInt32.ofNat b.height).toInt32
  nonce := b.nonce.toInt32
  target := b.target.toInt32
  totalTransactions := b.totalTx.toInt32
  version := b.version.toInt32
  timestamp := timestamp
  blockHash := b.blockHash.toList
  flags := (List.range flagsLen).map (arrays.flags b)
  hashes := (List.range hashesLen).map (arrays.hashes b)
  merkleRoot := b.merkleRoot.toList
  prevBlock := b.prevBlock.toList

/- One round of the loop of `saveBlocks`. -/
def saveBlock
    (arrays : PointerArrays)
    (state : Int32 × List BlockRow)
    (b : Option (BRMerkleBlock UInt256)) :
    Except Stop (Int32 × List BlockRow) :=
  match b with
  | none => .error .rollback
  | some b =>
      let timestampResult :=
        subtractingReportingOverflow b.timestamp.toInt32
          (Int32.ofNat NSTimeIntervalSince1970)
      -- skip a block with an overflowed timestamp
      if timestampResult.2 then .ok state
      -- skip a block with an invalid height
      else if (UInt32.ofNat b.height).toInt32 =
          Int32.ofNat BLOCK_UNKNOWN_HEIGHT then .ok state
      else
        match nextKey state.1, blobLength 1 b.flagsLen,
          blobLength 32 b.hashesCount with
        | some pk, some flagsLen, some hashesLen =>
            if state.2.any fun row => row.pk = pk then
              .error .rollback
            else
              .ok (pk, state.2 ++
                [blockRow arrays b timestampResult.1 pk
                  flagsLen hashesLen])
        | _, _, _ => .error .crash

/- `saveBlocks` -/
def saveBlocks
    (arrays : PointerArrays)
    (db : CoreDatabase)
    (replace : Bool)
    (blocks : List (Option (BRMerkleBlock UInt256))) :
    Option CoreDatabase :=
  let start : Option (Int32 × List BlockRow) :=
    if replace then some (0, [])
    else db.blockMax.map fun pk => (pk, db.blocks)
  match start with
  | none => some db
  | some start =>
      match blocks.foldlM (saveBlock arrays) start with
      | .error .crash => none
      | .error .rollback => some db
      | .ok (pk, rows) =>
          some
            { db with
              blocks := rows
              blockMax := db.blockMax.map fun _ => pk }

------------------------------------------------------------
-- Loading Blocks
------------------------------------------------------------

/- One round of the loop of `loadBlocks`. -/
def loadBlock
    (row : BlockRow) :
    Option (Option (BRMerkleBlock UInt256)) :=
  let b := BRMerkleBlock.new
  let b := { b with height := row.height.toUInt32.toNat }
  if b.height = BLOCK_UNKNOWN_HEIGHT then some none
  else
    let b :=
      { b with
        nonce := row.nonce.toUInt32
        target := row.target.toUInt32
        totalTx := row.totalTransactions.toUInt32
        version := row.version.toUInt32 }
    let result :=
      addingReportingOverflow row.timestamp.toUInt32
        (UInt32.ofNat NSTimeIntervalSince1970)
    if result.2 then some none
    else do
      let b := { b with timestamp := result.1 }
      let blockHash ← getUInt256 row.blockHash 0
      let b := { b with blockHash := blockHash }
      let hashesCount := row.hashes.length / 32
      let b :=
        b.setTxHashes (hashesOfBytes hashesCount row.hashes)
          hashesCount row.flags row.flags.length
      let merkleRoot ← getUInt256 row.merkleRoot 0
      let prevBlock ← getUInt256 row.prevBlock 0
      some
        (some
          { b with
            merkleRoot := merkleRoot
            prevBlock := prevBlock })

/- `loadBlocks` -/
def loadBlocks
    (db : CoreDatabase) :
    Option (List (BRMerkleBlock UInt256)) := do
  let blocks ← db.blocks.mapM loadBlock
  some (blocks.filterMap id)

------------------------------------------------------------
-- Writing Transactions
------------------------------------------------------------

/- A timestamp as it is stored. -/
def rebase (timestamp : Nat) : Nat :=
  if NSTimeIntervalSince1970 < timestamp then
    timestamp - NSTimeIntervalSince1970
  else 0

/- The bytes of a height and a timestamp at the end of a blob. -/
def trailer (blockHeight timestamp : Nat) : List UInt8 :=
  littleEndian 4 blockHeight ++ littleEndian 4 timestamp

/- `txAdded` -/
def txAdded
    (sha256_2 : List UInt8 → UInt256)
    (db : CoreDatabase)
    (tx : BRTransaction UInt256) : Option CoreDatabase :=
  let count := (tx.serialize sha256_2 none).1
  match tx.serialize sha256_2
      (some (List.replicate count 0)) with
  | (_, none) => some db
  | (len, some buf) =>
      if len ≠ count then some db
      else
        let buf :=
          buf ++ trailer tx.blockHeight (rebase tx.timestamp)
        match db.txMax with
        | none => some db
        | some pk => do
            let pk ← nextKey pk
            if 2 ^ 31 ≤ buf.length then none
            else if db.transactions.any fun row =>
                row.pk = pk then some db
            else
              some
                { db with
                  transactions :=
                    db.transactions ++
                      [{ pk := pk
                         type := 1
                         blob := buf
                         txHash := tx.txHash }]
                  txMax := some pk }

/- The blob of a row with another height and timestamp. -/
def restamp
    (bytes blob : List UInt8) : List UInt8 :=
  blob.take (blob.length - bytes.length) ++ bytes

/- `txUpdated` -/
def txUpdated
    (db : CoreDatabase)
    (txHashes : List UInt256)
    (blockHeight timestamp : Nat) : Option CoreDatabase :=
  if txHashes = [] then some db
  else
    let bytes := trailer blockHeight (rebase timestamp)
    let found :=
      db.transactions.filter fun row =>
        row.type = 1 && decide (row.txHash ∈ txHashes)
    let update := fun (rows : List TxRow) (row : TxRow) =>
      if bytes.length < row.blob.length then
        rows.map fun other =>
          if other.txHash = row.txHash then
            { other with blob := restamp bytes row.blob }
          else other
      else rows
    if found.length = txHashes.length then
      some
        { db with
          transactions := found.foldl update db.transactions }
    else none

/- `txDeleted` -/
def txDeleted
    (db : CoreDatabase)
    (txHash : UInt256) : CoreDatabase :=
  { db with
    transactions :=
      db.transactions.filter fun row =>
        !(row.type = 1 && decide (row.txHash = txHash)) }

------------------------------------------------------------
-- Loading Transactions
------------------------------------------------------------

/-
  The loop of `loadTransactions`, over the blobs of the rows; it
  ends at one that is too short or does not parse.
-/
def loadFrom
    (sha256_2 : List UInt8 → UInt256) :
    List (List UInt8) → Option (List (BRTransaction UInt256))
  | [] => some []
  | buf :: rest =>
      if buf.length < 8 then some []
      else do
        let off := buf.length - 8
        match ← BRTransaction.parse sha256_2 (buf.take off) with
        | none => some []
        | some tx =>
            let blockHeight ← getUInt32LE buf off
            let timestamp ← getUInt32LE buf (off + 4)
            let timestamp ←
              if timestamp = 0 then some 0
              else if 2 ^ 32 ≤
                  timestamp.toNat + NSTimeIntervalSince1970 then
                none
              else some (timestamp.toNat + NSTimeIntervalSince1970)
            let tx :=
              { tx with
                blockHeight := blockHeight.toNat
                timestamp := timestamp }
            let txs ← loadFrom sha256_2 rest
            some (tx :: txs)

/- `loadTransactions` -/
def loadTransactions
    (sha256_2 : List UInt8 → UInt256)
    (db : CoreDatabase) :
    Option (List (BRTransaction UInt256)) :=
  loadFrom sha256_2
    ((db.transactions.filter fun row => row.type = 1).map
      TxRow.blob)

end CoreDatabase

end PlusWallet
