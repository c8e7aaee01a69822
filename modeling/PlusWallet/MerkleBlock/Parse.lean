import PlusWallet.MerkleBlock.Block
import PlusWallet.Transaction.Parse

/-
  `BRMerkleBlockParse` and `BRMerkleBlockIsValid`.

  A result of `none` stands for an access outside an array,
  and an inner `none` of the parser for `NULL`.

  Main declarations:
    * `getUInt32LE`, `getUInt256`
    * `BRMerkleBlock.setTxHashes`
    * `BRMerkleBlock.parse`
    * `BRMerkleBlock.isValid`
    * `BRMerkleBlock.matchedHashes`
-/

namespace PlusWallet

open Bytes

/- highest value for difficulty target -/
def MAX_PROOF_OF_WORK : Nat := 0x1d00ffff

/- the furthest in the future a block is allowed to be
   timestamped -/
def BLOCK_MAX_TIME_DRIFT : UInt32 := 2 * 60 * 60

def BLOCK_UNKNOWN_HEIGHT : Nat := 2 ^ 31 - 1

------------------------------------------------------------
-- Reads
------------------------------------------------------------

/- `UInt32GetLE` -/
def getUInt32LE
    (buf : List UInt8)
    (off : Nat) : Option UInt32 :=
  (slice buf off 4).map fun bytes =>
    UInt32.ofNat (ofLittleEndian bytes)

/- `UInt256Get` -/
def getUInt256
    (buf : List UInt8)
    (off : Nat) : Option UInt256 :=
  (slice buf off 32).map hashOfBytes

theorem exists_getUInt32LE
    {buf : List UInt8}
    {off : Nat}
    (hInside : off + 4 ≤ buf.length) :
    ∃ number, getUInt32LE buf off = some number := by
  rcases exists_slice hInside with ⟨bytes, hBytes⟩
  exact ⟨_, congrArg _ hBytes⟩

theorem exists_getUInt256
    {buf : List UInt8}
    {off : Nat}
    (hInside : off + 32 ≤ buf.length) :
    ∃ hash, getUInt256 buf off = some hash := by
  rcases exists_slice hInside with ⟨bytes, hBytes⟩
  exact ⟨_, congrArg _ hBytes⟩

/- The product of two sizes. -/
def mulSize (size other : Nat) : Nat :=
  size * other % 2 ^ 64

/-
  The bytes that an allocated array is filled with.  An end
  that wraps around comes with a size that is never allocated.
-/
def copyField
    (buf : List UInt8)
    (off size : Nat) : List UInt8 :=
  if addSize off size ≤ buf.length then
    (slice buf off size).getD []
  else []

/- The hashes that stand behind each other. -/
def hashesOfBytes : Nat → List UInt8 → List UInt256
  | 0, _ => []
  | count + 1, bytes =>
      hashOfBytes (bytes.take 32) ::
        hashesOfBytes count (bytes.drop 32)

namespace BRMerkleBlock

------------------------------------------------------------
-- Parsing
------------------------------------------------------------

/- `BRMerkleBlockNew` -/
def new : BRMerkleBlock UInt256 where
  blockHash := 0
  version := 0
  prevBlock := 0
  merkleRoot := 0
  timestamp := 0
  target := 0
  nonce := 0
  totalTx := 0
  hashes := []
  hashesCount := 0
  flags := []
  flagsLen := 0
  height := BLOCK_UNKNOWN_HEIGHT

/-
  `BRMerkleBlockSetTxHashes`; the counts of the record are left
  as they are.
-/
def setTxHashes
    (block : BRMerkleBlock UInt256)
    (hashes : List UInt256)
    (hashesCount : Nat)
    (flags : List UInt8)
    (flagsLen : Nat) : BRMerkleBlock UInt256 :=
  { block with
    hashes := hashes.take hashesCount
    flags := flags.take flagsLen }

/- The part of a merkle block behind its header. -/
def parseTree
    (buf : List UInt8)
    (block : BRMerkleBlock UInt256) :
    Option (BRMerkleBlock UInt256) := do
  let totalTx ← getUInt32LE buf 80
  let off := 84
  let (hashesCount, len) := varInt (buf.drop off)
  let off := addSize off len
  let size := mulSize hashesCount 32
  let hashes := copyField buf off size
  let off := addSize off size
  let (flagsLen, len) := varInt (buf.drop off)
  let off := addSize off len
  some
    { block with
      totalTx := totalTx
      hashes := hashesOfBytes (hashes.length / 32) hashes
      hashesCount := UInt64.ofNat hashesCount
      flags := copyField buf off flagsLen
      flagsLen := UInt64.ofNat flagsLen }

/- `BRMerkleBlockParse` -/
def parse
    (sha256_2 : List UInt8 → UInt256)
    (buf : List UInt8) :
    Option (Option (BRMerkleBlock UInt256)) :=
  if buf.length < 80 then some none
  else do
    let version ← getUInt32LE buf 0
    let prevBlock ← getUInt256 buf 4
    let merkleRoot ← getUInt256 buf 36
    let timestamp ← getUInt32LE buf 68
    let target ← getUInt32LE buf 72
    let nonce ← getUInt32LE buf 76
    let block :=
      { new with
        version := version
        prevBlock := prevBlock
        merkleRoot := merkleRoot
        timestamp := timestamp
        target := target
        nonce := nonce }
    let block ←
      if 84 ≤ buf.length then parseTree buf block
      else some block
    some (some
      { block with blockHash := sha256_2 (buf.take 80) })

/- A buffer with room for a header is read inside of it. -/
theorem exists_parse_of_le
    (sha256_2 : List UInt8 → UInt256)
    {buf : List UInt8}
    (hLength : 80 ≤ buf.length) :
    ∃ block, parse sha256_2 buf = some (some block) := by
  have hNumber (off : Nat) (hOff : off ≤ 76) :
      ∃ number, getUInt32LE buf off = some number :=
    exists_getUInt32LE (by omega)
  have hHash (off : Nat) (hOff : off ≤ 36) :
      ∃ hash, getUInt256 buf off = some hash :=
    exists_getUInt256 (by omega)
  unfold parse
  rw [if_neg hLength.not_gt]
  rcases hNumber 0 (by omega) with ⟨version, hVersion⟩
  rcases hHash 4 (by omega) with ⟨prevBlock, hPrevBlock⟩
  rcases hHash 36 (by omega) with ⟨merkleRoot, hMerkleRoot⟩
  rcases hNumber 68 (by omega) with ⟨timestamp, hTimestamp⟩
  rcases hNumber 72 (by omega) with ⟨target, hTarget⟩
  rcases hNumber 76 (by omega) with ⟨nonce, hNonce⟩
  simp only [hVersion, hPrevBlock, hMerkleRoot, hTimestamp,
    hTarget, hNonce, Option.bind_eq_bind, Option.bind_some]
  split_ifs with hTree
  · rcases exists_getUInt32LE hTree with ⟨totalTx, hTotalTx⟩
    unfold parseTree
    rw [hTotalTx]
    exact ⟨_, rfl⟩
  · exact ⟨_, rfl⟩

/- The parser of blocks reads inside every buffer. -/
theorem exists_parse
    (sha256_2 : List UInt8 → UInt256)
    (buf : List UInt8) :
    ∃ parsed, parse sha256_2 buf = some parsed := by
  by_cases hLength : 80 ≤ buf.length
  · rcases exists_parse_of_le sha256_2 hLength with
      ⟨block, hParse⟩
    exact ⟨some block, hParse⟩
  · exact ⟨none, if_pos (Nat.not_le.mp hLength)⟩

------------------------------------------------------------
-- Validity
------------------------------------------------------------

/- The loop that compares two hashes from their last bytes. -/
def isAbove : List UInt8 → List UInt8 → Bool
  | byte :: bytes, limit :: limits =>
      if byte < limit then false
      else if limit < byte then true
      else isAbove bytes limits
  | _, _ => false

/-
  The bytes of a target in its compact format; a size beyond
  the 32 bytes is written behind their end.
-/
def targetBytes (size target : Nat) : Option (List UInt8) :=
  if 3 < size then
    if size - 3 + 4 ≤ 32 then
      some
        (List.replicate (size - 3) 0 ++
          littleEndian 4 target ++
          List.replicate (31 - size) 0)
    else none
  else
    some
      (littleEndian 4 (target / 2 ^ ((3 - size) * 8)) ++
        List.replicate 28 0)

/- `BRMerkleBlockIsValid` -/
def isValid
    (sha256_2 : List UInt8 → UInt256)
    (block : BRMerkleBlock UInt256)
    (currentTime : UInt32) : Option Bool := do
  let maxsize := MAX_PROOF_OF_WORK / 2 ^ 24
  let maxtarget := MAX_PROOF_OF_WORK % 2 ^ 24
  let size := block.target.toNat / 2 ^ 24
  let target := block.target.toNat % 2 ^ 24
  let merkleRoot ←
    block.computedRoot fun left right =>
      sha256_2 (left.toList ++ right.toList)
  -- check if merkle root is correct
  let isRoot :=
    decide (block.totalTx = 0 ∨ merkleRoot = block.merkleRoot)
  -- check if timestamp is too far in future
  let isTime :=
    decide
      (block.timestamp ≤ currentTime + BLOCK_MAX_TIME_DRIFT)
  -- check if proof-of-work target is out of range
  let isTarget :=
    !(decide (target = 0) || target.testBit 23 ||
      decide (maxsize < size) ||
      decide (size = maxsize ∧ maxtarget < target))
  let t ← targetBytes size target
  some
    (isRoot && isTime && isTarget &&
      -- check proof-of-work
      !isAbove block.blockHash.toList.reverse t.reverse)

------------------------------------------------------------
-- Matched Hashes
------------------------------------------------------------

/-
  The hashes that are read by counting them first, and then
  storing as many as were counted.
-/
def matchedHashes
    {Hash : Type}
    (block : BRMerkleBlock Hash) : Option (List Hash) := do
  let (count, _) ← block.txHashes .null
  let (_, hashes) ← block.txHashes (.array count)
  some hashes

end BRMerkleBlock

end PlusWallet
