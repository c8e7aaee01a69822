import PlusWallet.Library.MerkleTree

/-
  The merkle block record and the two walks over its partial
  merkle tree, as `BRMerkleBlock.c` computes them.

  Hashes are an arbitrary type with a zero value, and the
  double SHA-256 of two concatenated hashes is a parameter.
  A result of `none` stands for a run of the C code that
  reads outside an array or does not end.

  Main declarations:
    * `BRMerkleBlock`
    * `ceilLog2`
    * `BRMerkleBlock.rootR`
    * `BRMerkleBlock.txHashesR`
    * `BRMerkleBlock.txHashes`
-/

namespace PlusWallet

------------------------------------------------------------
-- Depth of the Tree
------------------------------------------------------------

/-
  The loop of `_ceil_log2` on a 32-bit `int`; the shift of a
  negative value keeps its sign.  An `int` has 32 bits, so a
  loop still running after 32 rounds never ends.
-/
def ceilLog2Loop :
    Nat → BitVec 32 → Nat → Option Nat
  | 0, _, _ => none
  | rounds + 1, x, r =>
      let x := x.sshiftRight 1
      if x ≠ 0 then ceilLog2Loop rounds x (r + 1)
      else some r

/- `_ceil_log2` -/
def ceilLog2 (x : BitVec 32) : Option Nat :=
  ceilLog2Loop 32 x (if x &&& (x - 1) ≠ 0 then 1 else 0)

------------------------------------------------------------
-- Merkle Blocks
------------------------------------------------------------

/- The value of `SIZE_MAX`. -/
def SIZE_MAX : Nat := 2 ^ 64 - 1

/-
  `BRMerkleBlock`.  The two arrays are stored beside their
  counts, since the C record allows them to disagree.  Block
  heights are natural numbers: no chain has `2 ^ 32` blocks.
-/
structure BRMerkleBlock (Hash : Type) where
  blockHash : Hash
  version : UInt32
  prevBlock : Hash
  merkleRoot : Hash
  timestamp : UInt32
  target : UInt32
  nonce : UInt32
  totalTx : UInt32
  hashes : List Hash
  hashesCount : UInt64
  flags : List UInt8
  flagsLen : UInt64
  height : Nat
deriving DecidableEq

namespace BRMerkleBlock

variable {Hash : Type}

/- The positions `hashIdx` and `flagIdx` of a walk. -/
structure Cursor where
  hashIdx : Nat
  flagIdx : Nat
deriving DecidableEq

/- Both walks stop where the flags or the hashes run out. -/
def hasNext
    (block : BRMerkleBlock Hash)
    (cursor : Cursor) : Bool :=
  decide (cursor.flagIdx / 8 < block.flagsLen.toNat) &&
    decide (cursor.hashIdx < block.hashesCount.toNat)

/- The flag bit at an index, least significant bit first. -/
def flagAt
    (block : BRMerkleBlock Hash)
    (flagIdx : Nat) : Option Bool :=
  (block.flags[flagIdx / 8]?).map fun flags =>
    flags.toNat.testBit (flagIdx % 8)

/- `_ceil_log2(block->totalTx)` -/
def treeDepth
    (block : BRMerkleBlock Hash) : Option Nat :=
  ceilLog2 block.totalTx.toBitVec

/-
  Whether a node with the given flag has its children in the
  proof; the depth is computed for a set flag only.
-/
def isInner
    (block : BRMerkleBlock Hash)
    (flag : Bool)
    (depth : Nat) : Option Bool :=
  if flag then
    block.treeDepth.map fun treeDepth =>
      decide (depth ≠ treeDepth)
  else some false

------------------------------------------------------------
-- Reconstruction of the Merkle Root
------------------------------------------------------------

/-
  `_BRMerkleBlockRootR`, with a bound on the depth of the
  recursion; `sha256_2` is `BRSHA256_2` of both hashes.
-/
def rootR
    [DecidableEq Hash]
    [Zero Hash]
    (sha256_2 : Hash → Hash → Hash)
    (block : BRMerkleBlock Hash) :
    Nat → Nat → Cursor → Option (Hash × Cursor)
  | 0, _, _ => none
  | bound + 1, depth, cursor =>
      if block.hasNext cursor then do
        let flag ← block.flagAt cursor.flagIdx
        let cursor :=
          { cursor with flagIdx := cursor.flagIdx + 1 }
        let inner ← block.isInner flag depth
        if inner then
          let (left, cursor) ←
            rootR sha256_2 block bound (depth + 1) cursor
          let (right, cursor) ←
            rootR sha256_2 block bound (depth + 1) cursor
          if left ≠ 0 ∧ left ≠ right then
            -- a missing right branch is the left one again
            let right := if right = 0 then left else right
            some (sha256_2 left right, cursor)
          else
            -- defend against (CVE-2012-2459)
            some (0, { cursor with hashIdx := SIZE_MAX })
        else
          let md ← block.hashes[cursor.hashIdx]?
          some (md,
            { cursor with hashIdx := cursor.hashIdx + 1 })
      else some (0, cursor)

/- No walk recurses deeper than this, `int` having 32 bits. -/
def maxDepth : Nat := 33

/- The root that `BRMerkleBlockIsValid` compares. -/
def computedRoot
    [DecidableEq Hash]
    [Zero Hash]
    (sha256_2 : Hash → Hash → Hash)
    (block : BRMerkleBlock Hash) : Option Hash :=
  (rootR sha256_2 block maxDepth 0 ⟨0, 0⟩).map Prod.fst

------------------------------------------------------------
-- Matched Transaction Hashes
------------------------------------------------------------

/- What `_BRMerkleBlockTxHashesR` updates through pointers. -/
structure TxHashesState (Item : Type) where
  idx : Nat
  txHashes : List Item
  cursor : Cursor

/-
  The destination of `BRMerkleBlockTxHashes`: `NULL`, or an
  array with room for a number of hashes.
-/
inductive Destination where
  | null
  | array (hashesCount : Nat)

/- The capacity passed on for a destination. -/
def Destination.capacity : Destination → Nat
  | .null => SIZE_MAX
  | .array hashesCount => hashesCount

/- Store a matched leaf; `NULL` counts it without reading. -/
def Destination.write
    {Item : Type}
    (destination : Destination)
    (leaf : Option Item)
    (state : TxHashesState Item) :
    Option (TxHashesState Item) :=
  if state.idx < destination.capacity then
    match destination with
    | .null => some { state with idx := state.idx + 1 }
    | .array _ =>
        leaf.map fun hash =>
          { state with
            idx := state.idx + 1
            txHashes := state.txHashes ++ [hash] }
  else some state

/- `_BRMerkleBlockTxHashesR`, with a bound on its recursion. -/
def txHashesR
    (block : BRMerkleBlock Hash)
    (destination : Destination) :
    Nat → Nat → TxHashesState Hash →
      Option (TxHashesState Hash)
  | 0, _, _ => none
  | bound + 1, depth, state =>
      if block.hasNext state.cursor then do
        let flag ← block.flagAt state.cursor.flagIdx
        let state :=
          { state with
            cursor.flagIdx := state.cursor.flagIdx + 1 }
        let inner ← block.isInner flag depth
        if inner then
          let state ←
            txHashesR block destination bound (depth + 1)
              state
          txHashesR block destination bound (depth + 1)
            state
        else
          let state ←
            if flag then
              destination.write
                (block.hashes[state.cursor.hashIdx]?) state
            else some state
          some
            { state with
              cursor.hashIdx := state.cursor.hashIdx + 1 }
      else some state

/-
  `BRMerkleBlockTxHashes`: the count it returns and the
  hashes it stores.
-/
def txHashes
    (block : BRMerkleBlock Hash)
    (destination : Destination) :
    Option (Nat × List Hash) :=
  (block.txHashesR destination maxDepth 0
    ⟨0, [], ⟨0, 0⟩⟩).map fun state =>
      (state.idx, state.txHashes)

end BRMerkleBlock

end PlusWallet
