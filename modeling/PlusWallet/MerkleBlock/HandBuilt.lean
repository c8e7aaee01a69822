import PlusWallet.MerkleBlock.RoundTrip

/-
  Merkle blocks whose hashes and flags were set by
  `BRMerkleBlockSetTxHashes`, serialized and parsed again.

  Main declarations:
    * `SameTree`, `SameTree.txHashes_eq`
    * `sameTree_of_bytes`
    * `Survives`, `survives_iff`
-/

namespace PlusWallet

open Bytes

namespace BRMerkleBlock

variable {Hash : Type}

------------------------------------------------------------
-- Blocks With the Same Tree
------------------------------------------------------------

/- Both blocks have the same partial tree. -/
structure SameTree
    (block other : BRMerkleBlock Hash) : Prop where
  totalTx : other.totalTx = block.totalTx
  hashes : other.hashes = block.hashes
  hashesCount : other.hashesCount = block.hashesCount
  flags : other.flags = block.flags
  flagsLen : other.flagsLen = block.flagsLen

namespace SameTree

variable {block other : BRMerkleBlock Hash}

theorem hasNext_eq
    (hSame : SameTree block other)
    (cursor : Cursor) :
    other.hasNext cursor = block.hasNext cursor := by
  unfold hasNext
  rw [hSame.flagsLen, hSame.hashesCount]

theorem flagAt_eq
    (hSame : SameTree block other)
    (flagIdx : Nat) :
    other.flagAt flagIdx = block.flagAt flagIdx := by
  unfold flagAt
  rw [hSame.flags]

theorem isInner_eq
    (hSame : SameTree block other)
    (flag : Bool)
    (depth : Nat) :
    other.isInner flag depth = block.isInner flag depth := by
  unfold isInner treeDepth
  rw [hSame.totalTx]

/- The walk reads nothing but the tree. -/
theorem txHashesR_eq
    (hSame : SameTree block other)
    (destination : Destination)
    (bound depth : Nat)
    (state : TxHashesState Hash) :
    other.txHashesR destination bound depth state =
      block.txHashesR destination bound depth state := by
  induction bound generalizing depth state with
  | zero => rfl
  | succ bound ih =>
      unfold txHashesR
      simp only [hSame.hasNext_eq, hSame.flagAt_eq,
        hSame.isInner_eq, hSame.hashes, ih]

theorem txHashes_eq
    (hSame : SameTree block other)
    (destination : Destination) :
    other.txHashes destination = block.txHashes destination :=
  congrArg (Option.map _)
    (hSame.txHashesR_eq destination maxDepth 0 ⟨0, [], ⟨0, 0⟩⟩)

end SameTree

------------------------------------------------------------
-- Reading the Tree Back
------------------------------------------------------------

variable {sha256_2 : List UInt8 → UInt256}

theorem hashBytes_inj
    {hashes others : List UInt256}
    (hBytes : hashBytes hashes = hashBytes others) :
    hashes = others := by
  have hLength := congrArg List.length hBytes
  rw [length_hashBytes, length_hashBytes] at hLength
  have hCount : hashes.length = others.length := by omega
  rw [← hashesOfBytes_hashBytes hashes, hBytes, hCount,
    hashesOfBytes_hashBytes]

/- What is read from the bytes of a tree is that tree. -/
theorem sameTree_of_bytes
    {block other : BRMerkleBlock UInt256}
    (hFilled : Filled block)
    {buf : List UInt8}
    (hBytes : buf = block.headerBytes ++ block.treeBytes)
    (hBuf : buf.length < 2 ^ 64)
    (hTree : TreeOf buf other) :
    SameTree block other := by
  have hWhole := Stands.whole buf
  nth_rewrite 2 [hBytes] at hWhole
  have hAtTree := hWhole.next
  rw [length_headerBytes, treeBytes] at hAtTree
  have hTotal := hAtTree.front.slice_eq
  rw [length_littleEndian] at hTotal
  have hAtCount := hAtTree.next
  rw [length_littleEndian] at hAtCount
  have hCount : hashCount buf = _ :=
    varInt_eq block.hashesCount.toNat_lt hAtCount.front
  have hAtHashes := hAtCount.next
  rw [length_varIntBytes] at hAtHashes
  have hHashes := hAtHashes.front.slice_eq
  have hAtFlagCount := hAtHashes.next
  rw [length_hashBytes, hFilled.hashes] at hAtFlagCount
  have hFlagCountAt :
      0 + 80 + 4 + varIntSize block.hashesCount.toNat +
          block.hashesCount.toNat * 32 =
        flagCountAt buf := by
    unfold flagCountAt hashesAt
    rw [hCount]
  rw [hFlagCountAt] at hAtFlagCount
  have hFlagCount : flagCount buf = _ :=
    varInt_eq block.flagsLen.toNat_lt hAtFlagCount.front
  have hAtFlags := hAtFlagCount.next
  rw [length_varIntBytes] at hAtFlags
  have hFlags := hAtFlags.slice_eq
  have hEnd := hAtFlags.le_length
  have hFlagAt : flagCountAt buf < 2 ^ 64 := by omega
  have hInside : treeEnd buf ≤ buf.length := by
    unfold treeEnd flagsAt
    rw [hFlagCount]
    rw [hFilled.flags] at hEnd
    exact hEnd
  have hHashesAt :
      0 + 80 + 4 + varIntSize block.hashesCount.toNat =
        hashesAt buf := by
    unfold hashesAt
    rw [hCount]
  have hSize :
      mulSize (hashCount buf).1 32 =
        (hashBytes block.hashes).length := by
    have hLe : hashesAt buf + (hashCount buf).1 * 32 < 2 ^ 64 :=
      hFlagAt
    rw [length_hashBytes, hFilled.hashes, hCount]
    rw [hCount] at hLe
    exact Nat.mod_eq_of_lt (by omega)
  refine ⟨?_, ?_, ?_, ?_, ?_⟩
  · have hSame :=
      Option.some.inj (hTotal.symm.trans hTree.totalTx)
    have hNumber := congrArg ofLittleEndian hSame
    rw [ofLittleEndian_littleEndian 4 block.totalTx.toNat_lt,
      ofLittleEndian_littleEndian 4 other.totalTx.toNat_lt]
      at hNumber
    exact (UInt32.toNat_inj.mp hNumber).symm
  · apply hashBytes_inj
    have hLe := length_of_slice hHashes
    rw [hHashesAt] at hHashes hLe
    unfold slice at hHashes
    rw [if_pos hLe.2] at hHashes
    rw [hTree.hashes, hSize, copyField_eq hBuf, if_pos hLe.2]
    exact Option.some.inj hHashes
  · apply UInt64.toNat_inj.mp
    rw [hTree.hashesCount, hCount]
  · unfold slice at hFlags
    rw [if_pos hEnd, hFilled.flags] at hFlags
    rw [hTree.flags_eq hBuf hFlagAt, if_pos hInside, flagsAt,
      hFlagCount]
    exact Option.some.inj hFlags
  · apply UInt64.toNat_inj.mp
    rw [hTree.flagsLen hFlagAt, hFlagCount]

------------------------------------------------------------
-- Blocks Built by Hand
------------------------------------------------------------

/- A block with the hashes and flags that it is given. -/
def withTxHashes
    (block : BRMerkleBlock UInt256)
    (hashes : List UInt256)
    (flags : List UInt8) : BRMerkleBlock UInt256 :=
  block.setTxHashes hashes hashes.length flags flags.length

theorem length_treeBytes_le (block : BRMerkleBlock UInt256) :
    block.treeBytes.length ≤
      22 + block.hashes.length * 32 + block.flags.length := by
  have hSize (count : Nat) : varIntSize count ≤ 9 := by
    unfold varIntSize
    split_ifs <;> omega
  have hHashCount := hSize block.hashesCount.toNat
  have hFlagCount := hSize block.flagsLen.toNat
  simp only [treeBytes, List.length_append,
    length_littleEndian, length_varIntBytes, length_hashBytes]
  omega

theorem four_le_length_treeBytes
    (block : BRMerkleBlock UInt256) :
    4 ≤ block.treeBytes.length := by
  rw [treeBytes, List.length_append, length_littleEndian]
  exact Nat.le_add_right _ _

/-
  In every buffer of the size that it asks for, the block is
  written so that it comes back with the hashes, the flags and
  their counts, which are those of both lists, and with the
  same matched hashes.
-/
def Survives
    (sha256_2 : List UInt8 → UInt256)
    (block : BRMerkleBlock UInt256)
    (hashes : List UInt256)
    (flags : List UInt8) : Prop :=
  let built := block.withTxHashes hashes flags
  ∀ room : List UInt8, room.length = built.serializedSize →
    ∃ bytes other,
      built.serialize (some room) =
          some (built.serializedSize, some bytes) ∧
        parse sha256_2 bytes = some (some other) ∧
        SameTree built other ∧
        other.hashes = hashes ∧
        other.hashesCount.toNat = hashes.length ∧
        other.flags = flags ∧
        other.flagsLen.toNat = flags.length ∧
        ∀ destination,
          other.txHashes destination = built.txHashes destination

/-
  A block survives exactly if its counts, which setting the
  hashes and flags leaves alone, are those of the lists.
-/
theorem survives_iff
    (sha256_2 : List UInt8 → UInt256)
    {block : BRMerkleBlock UInt256}
    (hTotal : block.totalTx ≠ 0)
    {hashes : List UInt256}
    {flags : List UInt8}
    (hFits : hashes.length * 32 + flags.length + 102 < 2 ^ 64) :
    Survives sha256_2 block hashes flags ↔
      block.hashesCount.toNat = hashes.length ∧
        block.flagsLen.toNat = flags.length := by
  have hHashes :
      (block.withTxHashes hashes flags).hashes = hashes :=
    List.take_length
  have hFlags :
      (block.withTxHashes hashes flags).flags = flags :=
    List.take_length
  constructor
  · intro hSurvives
    rcases hSurvives (List.replicate _ 0) List.length_replicate
      with
      ⟨bytes, other, -, -, hSame, -, hCount, -, hLen, -⟩
    rw [hSame.hashesCount] at hCount
    rw [hSame.flagsLen] at hLen
    exact ⟨hCount, hLen⟩
  · rintro ⟨hCount, hLen⟩ room hRoom
    have hFilled :
        Filled (block.withTxHashes hashes flags) := by
      refine ⟨?_, ?_⟩
      · rw [hHashes]
        exact hCount.symm
      · rw [hFlags]
        exact hLen.symm
    have hTotalTx :
        (block.withTxHashes hashes flags).totalTx ≠ 0 :=
      hTotal
    have hTree :=
      length_treeBytes_le (block.withTxHashes hashes flags)
    rw [hHashes, hFlags] at hTree
    have hSize :
        80 + (block.withTxHashes hashes flags).treeBytes.length <
          2 ^ 64 := by
      omega
    have hBytes := serialize_eq hFilled hTotalTx hSize hRoom
    have hLength :=
      four_le_length_treeBytes (block.withTxHashes hashes flags)
    generalize hBuilt : block.withTxHashes hashes flags = built
      at *
    have hWritten :
        (built.headerBytes ++ built.treeBytes).length =
          80 + built.treeBytes.length := by
      rw [List.length_append, length_headerBytes]
    have hHeader :
        80 ≤ (built.headerBytes ++ built.treeBytes).length := by
      rw [hWritten]
      exact Nat.le_add_right _ _
    rcases exists_parse_of_le sha256_2 hHeader with ⟨other, hParse⟩
    have hBuf :
        (built.headerBytes ++ built.treeBytes).length < 2 ^ 64 := by
      rw [hWritten]
      exact hSize
    have hSame :=
      sameTree_of_bytes hFilled rfl hBuf
        (tree_of_parse hBuf (by omega) hParse)
    refine ⟨_, other, hBytes, hParse, hSame, ?_⟩
    rw [hSame.hashesCount, hSame.flagsLen]
    exact
      ⟨hSame.hashes.trans hHashes, by rw [← hHashes, hFilled.hashes],
        hSame.flags.trans hFlags, by rw [← hFlags, hFilled.flags],
        hSame.txHashes_eq⟩

/- One hash and one flag byte that set the counts as well. -/
def countedBlock : BRMerkleBlock UInt256 :=
  { new with totalTx := 1, hashesCount := 1, flagsLen := 1 }

theorem countedBlock_survives :
    countedBlock.totalTx ≠ 0 ∧
      [(0 : UInt256)].length * 32 + [(1 : UInt8)].length + 102 <
        2 ^ 64 ∧
      Survives (fun _ => 0) countedBlock [0] [1] := by
  have hTotal : countedBlock.totalTx ≠ 0 := by decide
  refine ⟨hTotal, by decide, ?_⟩
  exact
    (survives_iff (fun _ => 0) hTotal (by decide)).mpr
      ⟨rfl, rfl⟩

/- A new block of one transaction, whose counts stay zero. -/
def uncountedBlock : BRMerkleBlock UInt256 :=
  { new with totalTx := 1 }

theorem uncountedBlock_not_survives :
    ¬ Survives (fun _ => 0) uncountedBlock [0] [1] := by
  intro hSurvives
  rcases hSurvives (List.replicate _ 0) List.length_replicate
    with
    ⟨bytes, other, -, -, hSame, -, hCount, -⟩
  rw [hSame.hashesCount] at hCount
  cases hCount

end BRMerkleBlock

end PlusWallet
