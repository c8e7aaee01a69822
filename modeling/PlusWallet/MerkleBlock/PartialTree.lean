import PlusWallet.MerkleBlock.Walk

/-
  Partial merkle trees as BIP37 writes them: depth first, one
  flag per visited node, a hash for every node whose children
  are left out, and no node for a duplicated branch.

  Main declarations:
    * `PartialTree.flags`
    * `PartialTree.hashes`
    * `PartialTree.matchedHashes`
    * `PartialTree.Encodes`
    * `PartialTree.encodes_encodedBlock`
-/

namespace PlusWallet

namespace PartialTree

variable {Hash : Type}

------------------------------------------------------------
-- Matched Transactions
------------------------------------------------------------

/- The hash at an index, when the index is matched. -/
def matchedAt
    (txs : List Hash)
    (matched : Nat → Bool)
    (index : Nat) : Option Hash :=
  if matched index then txs[index]? else none

/- The matched hashes below a node, in list order. -/
def matchedBelow
    (txs : List Hash)
    (matched : Nat → Bool)
    (height position : Nat) : List Hash :=
  (List.range' (position * 2 ^ height)
    (2 ^ height)).filterMap (matchedAt txs matched)

/- The matched hashes of the whole list, in list order. -/
def matchedHashes
    (txs : List Hash)
    (matched : Nat → Bool) : List Hash :=
  (List.range txs.length).filterMap (matchedAt txs matched)

------------------------------------------------------------
-- Encoding
------------------------------------------------------------

/- The flags of the nodes at and below a node. -/
def flags
    (sha256_2 : Hash → Hash → Hash)
    (txs : List Hash)
    (matched : Nat → Bool) :
    Nat → Nat → List Bool
  | 0, position =>
      [!(matchedBelow txs matched 0 position).isEmpty]
  | height + 1, position =>
      if (matchedBelow txs matched (height + 1)
          position).isEmpty then [false]
      else
        true ::
          (flags sha256_2 txs matched height
              (2 * position) ++
            if 2 * position + 1 <
                (MerkleTree.row sha256_2 txs height).length
            then
              flags sha256_2 txs matched height
                (2 * position + 1)
            else [])

/- The hashes stored for the nodes at and below a node. -/
def hashes
    (sha256_2 : Hash → Hash → Hash)
    (txs : List Hash)
    (matched : Nat → Bool) :
    Nat → Nat → List Hash
  | 0, position => (txs[position]?).toList
  | height + 1, position =>
      if (matchedBelow txs matched (height + 1)
          position).isEmpty then
        ((MerkleTree.row sha256_2 txs
          (height + 1))[position]?).toList
      else
        hashes sha256_2 txs matched height (2 * position) ++
          if 2 * position + 1 <
              (MerkleTree.row sha256_2 txs height).length
          then
            hashes sha256_2 txs matched height
              (2 * position + 1)
          else []

/- Eight flags in a byte, the first in the lowest bit. -/
def packByte : List Bool → Nat
  | [] => 0
  | bit :: bits => bit.toNat + 2 * packByte bits

/- Flags in bytes, the last byte padded with zero bits. -/
def packFlags (bits : List Bool) : List UInt8 :=
  (List.range ((bits.length + 7) / 8)).map fun index =>
    UInt8.ofNat
      (packByte ((bits.drop (8 * index)).take 8))

/- The height of the root, where a row holds one node. -/
def rootHeight (txs : List Hash) : Nat :=
  Nat.clog 2 txs.length

/- A block holding the partial tree of a list and a matched set. -/
structure Encodes
    (sha256_2 : Hash → Hash → Hash)
    (txs : List Hash)
    (matched : Nat → Bool)
    (block : BRMerkleBlock Hash) : Prop where
  totalTx : block.totalTx.toNat = txs.length
  hashes :
    block.hashes =
      hashes sha256_2 txs matched (rootHeight txs) 0
  hashesCount :
    block.hashesCount.toNat = block.hashes.length
  flags :
    block.flags =
      packFlags
        (flags sha256_2 txs matched (rootHeight txs) 0)
  flagsLen : block.flagsLen.toNat = block.flags.length

------------------------------------------------------------
-- Matched Transactions below a Node
------------------------------------------------------------

theorem matchedBelow_succ
    (txs : List Hash)
    (matched : Nat → Bool)
    (height position : Nat) :
    matchedBelow txs matched (height + 1) position =
      matchedBelow txs matched height (2 * position) ++
        matchedBelow txs matched height
          (2 * position + 1) := by
  have hStart :
      position * 2 ^ (height + 1) =
        2 * position * 2 ^ height := by
    rw [Nat.pow_succ]
    ring
  have hNext :
      2 * position * 2 ^ height + 2 ^ height =
        (2 * position + 1) * 2 ^ height := by
    ring
  rw [matchedBelow, matchedBelow, matchedBelow,
    ← List.filterMap_append, hStart, ← hNext,
    Nat.pow_succ, Nat.mul_two]
  congr 1
  have hAppend :=
    @List.range'_append_1 (2 * position * 2 ^ height)
      (2 ^ height) (2 ^ height)
  exact hAppend.symm

/- Past the last transaction nothing is matched. -/
theorem matchedBelow_eq_nil
    {txs : List Hash}
    (matched : Nat → Bool)
    {height position : Nat}
    (hPast : txs.length ≤ position * 2 ^ height) :
    matchedBelow txs matched height position = [] := by
  rw [matchedBelow, List.filterMap_eq_nil_iff]
  intro index hIndex
  have hLe := (List.mem_range'_1.mp hIndex).1
  have hNone : txs[index]? = none :=
    List.getElem?_eq_none (by omega)
  simp [matchedAt, hNone]

/- Below the root stand all matched hashes. -/
theorem matchedBelow_root
    (txs : List Hash)
    (matched : Nat → Bool) :
    matchedBelow txs matched (rootHeight txs) 0 =
      matchedHashes txs matched := by
  have hBound :
      txs.length ≤ 2 ^ rootHeight txs :=
    Nat.le_pow_clog (by omega) txs.length
  have hSplit :
      List.range' 0 (2 ^ rootHeight txs) =
        List.range' 0 txs.length ++
          List.range' txs.length
            (2 ^ rootHeight txs - txs.length) := by
    have hAppend :=
      @List.range'_append_1 0 txs.length
        (2 ^ rootHeight txs - txs.length)
    rw [Nat.add_sub_cancel' hBound] at hAppend
    simpa using hAppend.symm
  have hRest :
      (List.range' txs.length
        (2 ^ rootHeight txs - txs.length)).filterMap
          (matchedAt txs matched) = [] := by
    rw [List.filterMap_eq_nil_iff]
    intro index hIndex
    have hLe := (List.mem_range'_1.mp hIndex).1
    have hNone : txs[index]? = none :=
      List.getElem?_eq_none hLe
    simp [matchedAt, hNone]
  rw [matchedBelow, matchedHashes, Nat.zero_mul, hSplit,
    List.filterMap_append, hRest, List.append_nil,
    List.range_eq_range']

------------------------------------------------------------
-- Packed Flags
------------------------------------------------------------

theorem packByte_lt
    (bits : List Bool) :
    packByte bits < 2 ^ bits.length := by
  induction bits with
  | nil => simp [packByte]
  | cons bit bits ih =>
      have hBit := bit.toNat_le
      rw [packByte, List.length_cons, Nat.pow_succ]
      omega

theorem testBit_packByte
    {bits : List Bool}
    {index : Nat}
    (hIndex : index < bits.length) :
    (packByte bits).testBit index = bits[index] := by
  induction bits generalizing index with
  | nil => simp at hIndex
  | cons bit bits ih =>
      rw [packByte]
      cases index with
      | zero =>
          cases bit <;> simp [Nat.testBit_zero]
      | succ index =>
          have hHalf :
              (bit.toNat + 2 * packByte bits) / 2 =
                packByte bits := by
            have hBit := bit.toNat_le
            omega
          rw [Nat.testBit_succ, hHalf,
            ih (by simpa using hIndex)]
          simp

theorem length_packFlags
    (bits : List Bool) :
    (packFlags bits).length = (bits.length + 7) / 8 := by
  simp [packFlags]

/- A packed flag is read back by its index. -/
theorem packFlags_getElem?
    {bits : List Bool}
    {index : Nat}
    (hIndex : index < bits.length) :
    ((packFlags bits)[index / 8]?).map
        (fun flags => flags.toNat.testBit (index % 8)) =
      some bits[index] := by
  have hByte : index / 8 < (bits.length + 7) / 8 := by
    omega
  have hChunk :
      index % 8 <
        ((bits.drop (8 * (index / 8))).take 8).length := by
    simp only [List.length_take, List.length_drop]
    omega
  have hSmall :
      packByte ((bits.drop (8 * (index / 8))).take 8) <
        2 ^ 8 := by
    refine lt_of_lt_of_le (packByte_lt _) ?_
    apply Nat.pow_le_pow_right (by omega)
    simp
  have hToNat :
      (UInt8.ofNat (packByte
        ((bits.drop (8 * (index / 8))).take 8))).toNat =
        packByte ((bits.drop (8 * (index / 8))).take 8) := by
    rw [UInt8.toNat_ofNat']
    exact Nat.mod_eq_of_lt hSmall
  simp only [packFlags, List.getElem?_map,
    List.getElem?_range hByte, Option.map_some, hToNat,
    testBit_packByte hChunk, List.getElem_take,
    List.getElem_drop, Option.some.injEq]
  congr 1
  omega

/- Reading a flag of an encoded block. -/
theorem Encodes.flagAt
    {sha256_2 : Hash → Hash → Hash}
    {txs : List Hash}
    {matched : Nat → Bool}
    {block : BRMerkleBlock Hash}
    (hEncodes : Encodes sha256_2 txs matched block)
    {index : Nat}
    (hIndex :
      index <
        (PartialTree.flags sha256_2 txs matched
          (rootHeight txs) 0).length) :
    block.flagAt index =
        some
          (PartialTree.flags sha256_2 txs matched
            (rootHeight txs) 0)[index] ∧
      index / 8 < block.flagsLen.toNat := by
  refine ⟨?_, ?_⟩
  · rw [BRMerkleBlock.flagAt, hEncodes.flags]
    exact packFlags_getElem? hIndex
  · rw [hEncodes.flagsLen, hEncodes.flags,
      length_packFlags]
    omega

------------------------------------------------------------
-- Encoded Blocks
------------------------------------------------------------

/- A subtree of height `h` stores at most `2 ^ h` hashes. -/
theorem length_hashes_le
    (sha256_2 : Hash → Hash → Hash)
    (txs : List Hash)
    (matched : Nat → Bool)
    (height position : Nat) :
    (hashes sha256_2 txs matched height position).length ≤
      2 ^ height := by
  have hToList :
      ∀ entry : Option Hash, entry.toList.length ≤ 1 := by
    intro entry
    cases entry <;> simp
  induction height generalizing position with
  | zero => exact hToList _
  | succ height ih =>
      have hOne : 1 ≤ 2 ^ height := Nat.one_le_two_pow
      have hLeft := ih (2 * position)
      have hRight := ih (2 * position + 1)
      rw [hashes, Nat.pow_succ]
      split
      · have := hToList
          ((MerkleTree.row sha256_2 txs
            (height + 1))[position]?)
        omega
      · rw [List.length_append]
        split
        · omega
        · simp only [List.length_nil]
          omega

/- A subtree of height `h` has fewer than `2 ^ (h + 1)` nodes. -/
theorem length_flags_lt
    (sha256_2 : Hash → Hash → Hash)
    (txs : List Hash)
    (matched : Nat → Bool)
    (height position : Nat) :
    (flags sha256_2 txs matched height position).length <
      2 ^ (height + 1) := by
  induction height generalizing position with
  | zero => simp [flags]
  | succ height ih =>
      have hOne : 1 ≤ 2 ^ height := Nat.one_le_two_pow
      have hLeft := ih (2 * position)
      have hRight := ih (2 * position + 1)
      rw [flags, Nat.pow_succ]
      rw [Nat.pow_succ] at hLeft hRight ⊢
      split
      · simp only [List.length_singleton]
        omega
      · rw [List.length_cons, List.length_append]
        split
        · omega
        · simp only [List.length_nil]
          omega

/- The block BIP37 prescribes for a list and a matched set. -/
def encodedBlock
    [Zero Hash]
    (sha256_2 : Hash → Hash → Hash)
    (txs : List Hash)
    (matched : Nat → Bool) : BRMerkleBlock Hash :=
  let bits :=
    flags sha256_2 txs matched (rootHeight txs) 0
  let stored :=
    hashes sha256_2 txs matched (rootHeight txs) 0
  { blockHash := 0
    version := 0
    prevBlock := 0
    merkleRoot := (MerkleTree.root sha256_2 txs).getD 0
    timestamp := 0
    target := 0
    nonce := 0
    totalTx := UInt32.ofNat txs.length
    hashes := stored
    hashesCount := UInt64.ofNat stored.length
    flags := packFlags bits
    flagsLen := UInt64.ofNat (packFlags bits).length
    height := 0 }

/- Every list whose length fits the record has an encoding. -/
theorem encodes_encodedBlock
    [Zero Hash]
    (sha256_2 : Hash → Hash → Hash)
    (txs : List Hash)
    (hLength : txs.length < 2 ^ 32)
    (matched : Nat → Bool) :
    Encodes sha256_2 txs matched
      (encodedBlock sha256_2 txs matched) := by
  have hHeight : rootHeight txs ≤ 32 :=
    Nat.clog_le_of_le_pow hLength.le
  have hPow : 2 ^ rootHeight txs ≤ 2 ^ 32 :=
    Nat.pow_le_pow_right (by omega) hHeight
  refine ⟨?_, rfl, ?_, rfl, ?_⟩
  · simpa [encodedBlock] using Nat.mod_eq_of_lt hLength
  · have hHashes :=
      length_hashes_le sha256_2 txs matched
        (rootHeight txs) 0
    have hSmall :
        (hashes sha256_2 txs matched (rootHeight txs)
          0).length < 2 ^ 64 := by
      omega
    simpa [encodedBlock] using Nat.mod_eq_of_lt hSmall
  · have hFlags :=
      length_flags_lt sha256_2 txs matched
        (rootHeight txs) 0
    have hSmall :
        (packFlags
          (flags sha256_2 txs matched (rootHeight txs)
            0)).length < 2 ^ 64 := by
      rw [length_packFlags]
      rw [Nat.pow_succ] at hFlags
      omega
    simpa [encodedBlock] using Nat.mod_eq_of_lt hSmall

end PartialTree

end PlusWallet
