import PlusWallet.Library.ByteOrder
import PlusWallet.MerkleBlock.Parse
import PlusWallet.MerkleBlock.Termination
import PlusWallet.Transaction.RoundTrip

/-
  `BRMerkleBlockSerialize`, and what it writes of a block whose
  arrays are as long as its counts say.

  Main declarations:
    * `serialize`, `containsTxHash`
    * `headerBytes`, `treeBytes`
    * `serialize_eq`
-/

namespace PlusWallet

open Bytes

/- Move on, and leave the bytes as they are. -/
def Bytes.Writer.skip (size : Nat) : Writer := fun data =>
  (size, data)

namespace BRMerkleBlock

------------------------------------------------------------
-- Serializing
------------------------------------------------------------

/-
  `memcpy` from an array, if it is not `NULL`, as an empty one
  is; `none` if it is shorter than what is copied
-/
def copyArray
    (bytes : List UInt8)
    (size : Nat) : Option Writer :=
  if bytes = [] then some (Writer.skip size)
  else if size ≤ bytes.length then
    some (Writer.field (bytes.take size))
  else none

/- The hashes of a block behind each other. -/
def hashBytes (hashes : List UInt256) : List UInt8 :=
  hashes.flatMap List.Vector.toList

/- The fields of a header, and the tree behind them. -/
def headerWriters
    (block : BRMerkleBlock UInt256) : List Writer :=
  [writeUInt32 block.version,
    writeHash block.prevBlock,
    writeHash block.merkleRoot,
    writeUInt32 block.timestamp,
    writeUInt32 block.target,
    writeUInt32 block.nonce]

def treeWriters
    (block : BRMerkleBlock UInt256) : Option (List Writer) :=
  if block.totalTx = 0 then some []
  else do
    let hashes ←
      copyArray (hashBytes block.hashes)
        (mulSize block.hashesCount.toNat 32)
    let flags ← copyArray block.flags block.flagsLen.toNat
    some
      [writeUInt32 block.totalTx,
        varIntSet block.hashesCount.toNat,
        hashes,
        varIntSet block.flagsLen.toNat,
        flags]

/- The bytes that are needed; the sum of sizes wraps around. -/
def serializedSize (block : BRMerkleBlock UInt256) : Nat :=
  if block.totalTx = 0 then 80
  else
    addSize 80
      (4 + varIntSize block.hashesCount.toNat +
        mulSize block.hashesCount.toNat 32 +
        varIntSize block.flagsLen.toNat +
        block.flagsLen.toNat)

/-
  `BRMerkleBlockSerialize`, for a buffer that may be `NULL`:
  `none` if it reads outside the arrays of the block
-/
def serialize
    (block : BRMerkleBlock UInt256)
    (buf : Option (List UInt8)) :
    Option (Nat × Option (List UInt8)) :=
  match buf with
  | none => some (block.serializedSize, none)
  | some room =>
      if block.serializedSize ≤ room.length then do
        let tree ← block.treeWriters
        some
          (block.serializedSize,
            (fields (block.headerWriters ++ tree)
              (some room)).2)
      else some (0, some room)

/-
  The loop of `BRMerkleBlockContainsTxHash`, from an index:
  `none` if it reads outside the hashes
-/
def containsFrom
    (block : BRMerkleBlock UInt256)
    (txHash : UInt256) : Nat → Nat → Option Bool
  | 0, _ => some false
  | rounds + 1, i => do
      let hash ← block.hashes[i]?
      if hash = txHash then some true
      else containsFrom block txHash rounds (i + 1)

/- `BRMerkleBlockContainsTxHash` -/
def containsTxHash
    (block : BRMerkleBlock UInt256)
    (txHash : UInt256) : Option Bool :=
  block.containsFrom txHash block.hashesCount.toNat 0

------------------------------------------------------------
-- The Bytes
------------------------------------------------------------

/- The 80 bytes of a header. -/
def headerBytes
    (block : BRMerkleBlock UInt256) : List UInt8 :=
  littleEndian 4 block.version.toNat ++
    (block.prevBlock.toList ++
      (block.merkleRoot.toList ++
        (littleEndian 4 block.timestamp.toNat ++
          (littleEndian 4 block.target.toNat ++
            littleEndian 4 block.nonce.toNat))))

/- The bytes of the tree. -/
def treeBytes
    (block : BRMerkleBlock UInt256) : List UInt8 :=
  littleEndian 4 block.totalTx.toNat ++
    (varIntBytes block.hashesCount.toNat ++
      (hashBytes block.hashes ++
        (varIntBytes block.flagsLen.toNat ++ block.flags)))

variable {block : BRMerkleBlock UInt256}

@[simp]
theorem length_headerBytes
    (block : BRMerkleBlock UInt256) :
    block.headerBytes.length = 80 := by
  simp [headerBytes]

@[simp]
theorem length_hashBytes (hashes : List UInt256) :
    (hashBytes hashes).length = hashes.length * 32 := by
  induction hashes with
  | nil => rfl
  | cons hash hashes ih =>
      rw [hashBytes, List.flatMap_cons, List.length_append,
        List.Vector.toList_length, List.length_cons]
      rw [hashBytes] at ih
      omega

/- The size of a block whose bytes fit into memory. -/
theorem Filled.length_treeBytes
    (hFilled : Filled block)
    (hTotal : block.totalTx ≠ 0)
    (hFits : 80 + block.treeBytes.length < 2 ^ 64) :
    80 + block.treeBytes.length = block.serializedSize := by
  simp only [treeBytes, List.length_append,
    length_littleEndian, length_varIntBytes, length_hashBytes,
    hFilled.hashes, hFilled.flags] at hFits ⊢
  have hHashes :
      mulSize block.hashesCount.toNat 32 =
        block.hashesCount.toNat * 32 :=
    Nat.mod_eq_of_lt (by omega)
  rw [serializedSize, if_neg hTotal, hHashes,
    addSize_eq (by omega)]
  omega

/- An array is copied as it is if the size is its own. -/
theorem writes_copyArray
    {bytes : List UInt8}
    {writer : Writer}
    (hCopy : copyArray bytes bytes.length = some writer) :
    Writes writer bytes := by
  unfold copyArray at hCopy
  split_ifs at hCopy with hNull
  · cases hCopy
    subst hNull
    exact ⟨rfl, fun _ _ => rfl⟩
  · cases hCopy
    rw [List.take_length]
    exact Writes.field bytes

theorem exists_copyArray (bytes : List UInt8) :
    ∃ writer, copyArray bytes bytes.length = some writer := by
  unfold copyArray
  split_ifs
  · exact ⟨_, rfl⟩
  · exact ⟨_, rfl⟩
  · omega

/- What is written of a block that is filled. -/
theorem serialize_eq
    (hFilled : Filled block)
    (hTotal : block.totalTx ≠ 0)
    (hFits : 80 + block.treeBytes.length < 2 ^ 64)
    {room : List UInt8}
    (hRoom : room.length = block.serializedSize) :
    block.serialize (some room) =
      some
        (block.serializedSize,
          some (block.headerBytes ++ block.treeBytes)) := by
  have hHashCount :
      mulSize block.hashesCount.toNat 32 =
        (hashBytes block.hashes).length := by
    have hTree := hFits
    simp only [treeBytes, List.length_append] at hTree
    rw [length_hashBytes, ← hFilled.hashes, mulSize]
    rw [length_hashBytes] at hTree
    exact Nat.mod_eq_of_lt (by omega)
  rcases exists_copyArray (hashBytes block.hashes) with
    ⟨hashes, hHashes⟩
  rcases exists_copyArray block.flags with ⟨flags, hFlags⟩
  have hFlagCopy := hFlags
  rw [hFilled.flags] at hFlagCopy
  have hTree :
      Writes
        (fields
          [writeUInt32 block.totalTx,
            varIntSet block.hashesCount.toNat,
            hashes,
            varIntSet block.flagsLen.toNat,
            flags])
        block.treeBytes :=
    BRTransaction.writes_cons
      (Writes.field (littleEndian 4 block.totalTx.toNat))
      (BRTransaction.writes_cons
        (writes_varIntSet block.hashesCount.toNat)
        (BRTransaction.writes_cons (writes_copyArray hHashes)
          (BRTransaction.writes_cons
            (writes_varIntSet block.flagsLen.toNat)
            (BRTransaction.writes_last
              (writes_copyArray hFlags)))))
  have hAll :=
    BRTransaction.writes_cons
      (Writes.field (littleEndian 4 block.version.toNat))
      (BRTransaction.writes_cons
        (Writes.field block.prevBlock.toList)
        (BRTransaction.writes_cons
          (Writes.field block.merkleRoot.toList)
          (BRTransaction.writes_cons
            (Writes.field
              (littleEndian 4 block.timestamp.toNat))
            (BRTransaction.writes_cons
              (Writes.field
                (littleEndian 4 block.target.toNat))
              (BRTransaction.writes_cons
                (Writes.field
                  (littleEndian 4 block.nonce.toNat))
                hTree)))))
  have hLength := hFilled.length_treeBytes hTotal hFits
  have hBytes :
      block.headerBytes ++ block.treeBytes =
        littleEndian 4 block.version.toNat ++
          (block.prevBlock.toList ++
            (block.merkleRoot.toList ++
              (littleEndian 4 block.timestamp.toNat ++
                (littleEndian 4 block.target.toNat ++
                  (littleEndian 4 block.nonce.toNat ++
                    block.treeBytes))))) := by
    simp only [headerBytes, List.append_assoc]
  have hWritten :
      (block.headerBytes ++ block.treeBytes).length =
        room.length := by
    rw [List.length_append, length_headerBytes, hRoom]
    exact hLength
  have hBuffer := hAll.buffer room
  rw [← hBytes] at hBuffer
  unfold serialize
  dsimp only
  rw [if_pos hRoom.ge]
  unfold treeWriters
  rw [if_neg hTotal, hHashCount, hHashes, hFlagCopy]
  refine congrArg (some ∘ Prod.mk _) ?_
  refine (congrArg Prod.snd (hBuffer hWritten.le)).trans ?_
  rw [hWritten, List.drop_length, List.append_nil]

end BRMerkleBlock

end PlusWallet
