import PlusWallet.MerkleBlock.Serialize
import PlusWallet.Transaction.Bounds

/-
  What `BRMerkleBlockParse` makes of the bytes of a merkle
  block, and `BRMerkleBlockSerialize` of what it made.

  Main declarations:
    * `varInt_cases`, `take_varInt`
    * `hashCount`, `flagCount`, `treeEnd`
    * `header_of_parse`, `tree_of_parse`
    * `ParsesWell`, `parsesWell_iff`
-/

namespace PlusWallet

open Bytes

------------------------------------------------------------
-- Variable-Length Integers
------------------------------------------------------------

/- The headers, and the widths of the numbers behind them. -/
def varIntHeaders : List (UInt8 × Nat) :=
  [(VAR_INT16_HEADER, 2), (VAR_INT32_HEADER, 4),
    (VAR_INT64_HEADER, 8)]

/- The number behind a header; beyond the end it is zero. -/
def numberBehind (buf : List UInt8) (width : Nat) : Nat :=
  if 1 + width ≤ buf.length then
    ofLittleEndian ((buf.drop 1).take width)
  else 0

/- The first byte is the number, or the header of one. -/
theorem varInt_cases (buf : List UInt8) :
    ((buf.headD 0).toNat < 0xfd ∧
      varInt buf = ((buf.headD 0).toNat, 1)) ∨
    ∃ width, (buf.headD 0, width) ∈ varIntHeaders ∧
      varInt buf = (numberBehind buf width, 1 + width) := by
  unfold varInt
  dsimp only
  generalize buf.headD 0 = header
  by_cases hShort : header = VAR_INT16_HEADER
  · rw [if_pos hShort, hShort]
    exact Or.inr ⟨2, by decide, rfl⟩
  by_cases hLong : header = VAR_INT32_HEADER
  · rw [if_neg hShort, if_pos hLong, hLong]
    exact Or.inr ⟨4, by decide, rfl⟩
  by_cases hLonger : header = VAR_INT64_HEADER
  · rw [if_neg hShort, if_neg hLong, if_pos hLonger, hLonger]
    exact Or.inr ⟨8, by decide, rfl⟩
  · rw [if_neg hShort, if_neg hLong, if_neg hLonger]
    refine Or.inl ⟨?_, rfl⟩
    have hLt := header.toNat_lt
    rw [← UInt8.toNat_inj] at hShort hLong hLonger
    change header.toNat ≠ 0xfd at hShort
    change header.toNat ≠ 0xfe at hLong
    change header.toNat ≠ 0xff at hLonger
    omega

theorem numberBehind_lt
    (buf : List UInt8)
    (width : Nat) :
    numberBehind buf width < 256 ^ width := by
  unfold numberBehind
  split_ifs with hInside
  · have hLt := ofLittleEndian_lt ((buf.drop 1).take width)
    have hLength : ((buf.drop 1).take width).length = width := by
      rw [List.length_take, List.length_drop]
      omega
    rwa [hLength] at hLt
  · positivity

theorem mem_varIntHeaders
    {header : UInt8}
    {width : Nat} :
    (header, width) ∈ varIntHeaders ↔
      (header = VAR_INT16_HEADER ∧ width = 2) ∨
        (header = VAR_INT32_HEADER ∧ width = 4) ∨
        (header = VAR_INT64_HEADER ∧ width = 8) := by
  simp [varIntHeaders]

/- No number is read from fewer bytes than it is written to. -/
theorem varIntSize_le (buf : List UInt8) :
    varIntSize (varInt buf).1 ≤ (varInt buf).2 := by
  rcases varInt_cases buf with
    ⟨hByte, hVarInt⟩ | ⟨width, hHeader, hVarInt⟩
  · rw [hVarInt, varIntSize, if_pos hByte]
  · rw [hVarInt]
    have hLt := numberBehind_lt buf width
    unfold varIntSize
    rcases mem_varIntHeaders.mp hHeader with
      ⟨-, rfl⟩ | ⟨-, rfl⟩ | ⟨-, rfl⟩ <;>
    dsimp only at hLt ⊢ <;>
    split_ifs <;>
    omega

/- A number that is not zero was read inside of the buffer. -/
theorem varInt_inside
    {buf : List UInt8}
    (hNumber : (varInt buf).1 ≠ 0) :
    (varInt buf).2 ≤ buf.length := by
  rcases varInt_cases buf with
    ⟨-, hVarInt⟩ | ⟨width, -, hVarInt⟩
  · rw [hVarInt] at hNumber ⊢
    cases buf with
    | nil => exact absurd rfl hNumber
    | cons byte rest => simp
  · rw [hVarInt] at hNumber ⊢
    by_contra hBeyond
    exact hNumber (if_neg hBeyond)

/- The bytes of a number that stands there in its least size. -/
theorem take_varInt
    {buf : List UInt8}
    (hSize : varIntSize (varInt buf).1 = (varInt buf).2)
    (hInside : (varInt buf).2 ≤ buf.length) :
    buf.take (varInt buf).2 = varIntBytes (varInt buf).1 := by
  rcases buf with - | ⟨byte, rest⟩
  · rcases varInt_cases [] with
      ⟨-, hVarInt⟩ | ⟨width, -, hVarInt⟩
    · rw [hVarInt] at hInside
      simp at hInside
    · rw [hVarInt] at hInside
      simp at hInside
  · rcases varInt_cases (byte :: rest) with
      ⟨hByte, hVarInt⟩ | ⟨width, hHeader, hVarInt⟩
    · rw [List.headD_cons] at hByte hVarInt
      rw [hVarInt, varIntBytes, if_pos hByte,
        UInt8.ofNat_toNat]
      rfl
    · rw [hVarInt] at hSize hInside ⊢
      dsimp only at hSize hInside ⊢
      have hNumber :
          numberBehind (byte :: rest) width =
            ofLittleEndian (rest.take width) :=
        if_pos hInside
      have hLength : (rest.take width).length = width := by
        rw [List.length_cons] at hInside
        rw [List.length_take]
        omega
      have hBytes :=
        littleEndian_ofLittleEndian (rest.take width)
      rw [hLength, ← hNumber] at hBytes
      rw [Nat.add_comm 1 width, List.take_succ_cons, ← hBytes]
      rw [List.headD_cons] at hHeader
      unfold varIntSize at hSize
      unfold varIntBytes
      rcases mem_varIntHeaders.mp hHeader with
        ⟨rfl, rfl⟩ | ⟨rfl, rfl⟩ | ⟨rfl, rfl⟩ <;>
      split_ifs at hSize ⊢ <;>
      first | omega | rfl

------------------------------------------------------------
-- Hashes and Numbers That Were Read
------------------------------------------------------------

theorem slice_of_getUInt32LE
    {buf : List UInt8}
    {off : Nat}
    {number : UInt32}
    (hRead : getUInt32LE buf off = some number) :
    slice buf off 4 = some (littleEndian 4 number.toNat) := by
  rcases Option.map_eq_some_iff.mp hRead with
    ⟨bytes, hSlice, rfl⟩
  have hLength := (length_of_slice hSlice).1
  have hFits := ofLittleEndian_lt bytes
  rw [hLength] at hFits
  rw [hSlice, UInt32.toNat_ofNat_of_lt' hFits, ← hLength,
    littleEndian_ofLittleEndian]

theorem slice_of_getUInt256
    {buf : List UInt8}
    {off : Nat}
    {hash : UInt256}
    (hRead : getUInt256 buf off = some hash) :
    slice buf off 32 = some hash.toList := by
  rcases Option.map_eq_some_iff.mp hRead with
    ⟨bytes, hSlice, rfl⟩
  rw [hSlice, toList_hashOfBytes (length_of_slice hSlice).1]

@[simp]
theorem length_hashesOfBytes
    (count : Nat)
    (bytes : List UInt8) :
    (hashesOfBytes count bytes).length = count := by
  induction count generalizing bytes with
  | zero => rfl
  | succ count ih =>
      rw [hashesOfBytes, List.length_cons, ih]

/- The bytes of the hashes that some bytes were cut into. -/
theorem hashBytes_hashesOfBytes
    {count : Nat}
    {bytes : List UInt8}
    (hLength : bytes.length = count * 32) :
    BRMerkleBlock.hashBytes (hashesOfBytes count bytes) =
      bytes := by
  induction count generalizing bytes with
  | zero =>
      rw [Nat.zero_mul, List.length_eq_zero_iff] at hLength
      rw [hLength]
      rfl
  | succ count ih =>
      have hFront : (bytes.take 32).length = 32 := by
        rw [List.length_take]
        omega
      have hRest : (bytes.drop 32).length = count * 32 := by
        rw [List.length_drop]
        omega
      have hTail := ih hRest
      unfold BRMerkleBlock.hashBytes at hTail ⊢
      rw [hashesOfBytes, List.flatMap_cons, hTail,
        toList_hashOfBytes hFront, List.take_append_drop]

/- The hashes whose bytes were written behind each other. -/
theorem hashesOfBytes_hashBytes (hashes : List UInt256) :
    hashesOfBytes hashes.length
        (BRMerkleBlock.hashBytes hashes) =
      hashes := by
  induction hashes with
  | nil => rfl
  | cons hash hashes ih =>
      have hLength := hash.toList_length
      unfold BRMerkleBlock.hashBytes at ih ⊢
      rw [List.length_cons, hashesOfBytes, List.flatMap_cons,
        List.take_left' hLength, List.drop_left' hLength, ih,
        hashOfBytes_toList]

/- A field that lies inside of the buffer, or else nothing. -/
theorem copyField_eq
    {buf : List UInt8}
    (hBuf : buf.length < 2 ^ 64)
    (off size : Nat) :
    copyField buf off size =
      if off + size ≤ buf.length then
        (buf.drop off).take size
      else [] := by
  unfold copyField slice
  by_cases hInside : off + size ≤ buf.length
  · rw [addSize_eq (by omega), if_pos hInside, if_pos hInside,
      if_pos hInside]
    rfl
  · rw [if_neg hInside]
    split_ifs <;> rfl

theorem copyField_infix
    (buf : List UInt8)
    (off size : Nat) :
    copyField buf off size <:+: buf := by
  unfold copyField
  split_ifs
  · cases hSlice : slice buf off size with
    | none => exact List.nil_infix
    | some bytes => exact infix_of_slice hSlice
  · exact List.nil_infix

namespace BRMerkleBlock

variable {buf : List UInt8}
variable {sha256_2 : List UInt8 → UInt256}
variable {block : BRMerkleBlock UInt256}

------------------------------------------------------------
-- What Was Parsed
------------------------------------------------------------

/- The number of hashes, and the bytes that it takes. -/
def hashCount (buf : List UInt8) : Nat × Nat :=
  varInt (buf.drop 84)

/- Where the hashes begin, and where they end. -/
def hashesAt (buf : List UInt8) : Nat :=
  84 + (hashCount buf).2

def flagCountAt (buf : List UInt8) : Nat :=
  hashesAt buf + (hashCount buf).1 * 32

/- The number of flag bytes, and the bytes that it takes. -/
def flagCount (buf : List UInt8) : Nat × Nat :=
  varInt (buf.drop (flagCountAt buf))

def flagsAt (buf : List UInt8) : Nat :=
  flagCountAt buf + (flagCount buf).2

/- Where the flags end. -/
def treeEnd (buf : List UInt8) : Nat :=
  flagsAt buf + (flagCount buf).1

/- The bytes of a whole message, and no more. -/
def Complete (buf : List UInt8) : Prop :=
  84 ≤ buf.length ∧ treeEnd buf = buf.length

instance (buf : List UInt8) : Decidable (Complete buf) :=
  inferInstanceAs (Decidable (_ ∧ _))

/- The first 80 bytes are those of the parsed header. -/
theorem header_of_parse
    (hParse : parse sha256_2 buf = some (some block)) :
    slice buf 0 80 = some block.headerBytes := by
  unfold parse at hParse
  by_cases hShort : buf.length < 80
  · rw [if_pos hShort] at hParse
    cases hParse
  rw [if_neg hShort] at hParse
  simp only [Option.bind_eq_bind, Option.bind_eq_some_iff]
    at hParse
  rcases hParse with
    ⟨version, hVersion, prevBlock, hPrev, merkleRoot, hRoot,
      timestamp, hTime, target, hTarget, nonce, hNonce, hTree⟩
  have hFields :
      block.version = version ∧ block.prevBlock = prevBlock ∧
        block.merkleRoot = merkleRoot ∧
        block.timestamp = timestamp ∧ block.target = target ∧
        block.nonce = nonce := by
    split_ifs at hTree
    · unfold parseTree at hTree
      simp only [Option.bind_eq_bind, Option.bind_eq_some_iff,
        Option.some.injEq] at hTree
      rcases hTree with ⟨tree, ⟨totalTx, -, rfl⟩, rfl⟩
      exact ⟨rfl, rfl, rfl, rfl, rfl, rfl⟩
    · cases hTree
      exact ⟨rfl, rfl, rfl, rfl, rfl, rfl⟩
  rcases hFields with ⟨rfl, rfl, rfl, rfl, rfl, rfl⟩
  exact
    slice_append (slice_of_getUInt32LE hVersion)
      (slice_append (slice_of_getUInt256 hPrev)
        (slice_append (slice_of_getUInt256 hRoot)
          (slice_append (slice_of_getUInt32LE hTime)
            (slice_append (slice_of_getUInt32LE hTarget)
              (slice_of_getUInt32LE hNonce)))))

/-
  The tree of a block, as it is read from behind the header.
  The flags are looked for where the hashes should end.
-/
structure TreeOf
    (buf : List UInt8)
    (block : BRMerkleBlock UInt256) : Prop where
  totalTx :
    slice buf 80 4 = some (littleEndian 4 block.totalTx.toNat)
  hashesCount :
    block.hashesCount.toNat = (hashCount buf).1
  hashes :
    hashBytes block.hashes =
      copyField buf (hashesAt buf)
        (mulSize (hashCount buf).1 32)
  flagsLen :
    flagCountAt buf < 2 ^ 64 →
      block.flagsLen.toNat = (flagCount buf).1
  flags :
    flagCountAt buf < 2 ^ 64 →
      block.flags =
        copyField buf
          (addSize (flagCountAt buf) (flagCount buf).2)
          (flagCount buf).1

theorem tree_of_parse
    (hBuf : buf.length < 2 ^ 64)
    (hLength : 84 ≤ buf.length)
    (hParse : parse sha256_2 buf = some (some block)) :
    TreeOf buf block := by
  unfold parse at hParse
  rw [if_neg (by omega)] at hParse
  simp only [Option.bind_eq_bind, Option.bind_eq_some_iff]
    at hParse
  rcases hParse with
    ⟨version, -, prevBlock, -, merkleRoot, -, timestamp, -,
      target, -, nonce, -, hTree⟩
  rw [if_pos hLength] at hTree
  unfold parseTree at hTree
  simp only [Option.bind_eq_bind, Option.bind_eq_some_iff,
    Option.some.injEq] at hTree
  rcases hTree with ⟨tree, ⟨totalTx, hTotal, rfl⟩, rfl⟩
  have hLen : (hashCount buf).2 ≤ 9 := varInt_snd_le _
  have hAt : addSize 84 (varInt (buf.drop 84)).2 = hashesAt buf :=
    addSize_eq (lt_of_le_of_lt (Nat.add_le_add_left hLen _)
      (by decide))
  have hFlagAt (hFits : flagCountAt buf < 2 ^ 64) :
      addSize (hashesAt buf)
          (mulSize (varInt (buf.drop 84)).1 32) =
        flagCountAt buf := by
    have hSize :
        mulSize (varInt (buf.drop 84)).1 32 =
          (hashCount buf).1 * 32 :=
      Nat.mod_eq_of_lt
        (lt_of_le_of_lt (Nat.le_add_left _ _) hFits)
    rw [hSize]
    exact addSize_eq hFits
  refine ⟨slice_of_getUInt32LE hTotal, ?_, ?_, ?_, ?_⟩
  · exact UInt64.toNat_ofNat_of_lt' (varInt_fst_lt _)
  · dsimp only
    rw [hAt]
    apply hashBytes_hashesOfBytes
    rw [copyField_eq hBuf]
    split_ifs with hInside
    · rw [List.length_take, List.length_drop]
      have hThirtyTwo :
          mulSize (varInt (buf.drop 84)).1 32 % 32 = 0 := by
        unfold mulSize
        omega
      change _ = _ / 32 * 32
      omega
    · rfl
  · intro hFits
    dsimp only
    rw [hAt, hFlagAt hFits]
    exact UInt64.toNat_ofNat_of_lt' (varInt_fst_lt _)
  · intro hFits
    dsimp only
    rw [hAt, hFlagAt hFits]
    rfl

------------------------------------------------------------
-- Arrays That Are There
------------------------------------------------------------

/- What is counted lies inside of the buffer. -/
def Present (buf : List UInt8) : Prop :=
  ((hashCount buf).1 = 0 ∨ flagCountAt buf ≤ buf.length) ∧
    ((flagCount buf).1 = 0 ∨ treeEnd buf ≤ buf.length)

instance (buf : List UInt8) : Decidable (Present buf) :=
  inferInstanceAs (Decidable (_ ∧ _))

theorem hashesAt_le (buf : List UInt8) :
    hashesAt buf ≤ 93 :=
  Nat.add_le_add_left (varInt_snd_le _) 84

theorem TreeOf.length_hashes_iff
    (hBuf : buf.length < 2 ^ 64)
    (hTree : TreeOf buf block) :
    block.hashes.length = block.hashesCount.toNat ↔
      (hashCount buf).1 = 0 ∨
        flagCountAt buf ≤ buf.length := by
  have hBytes := congrArg List.length hTree.hashes
  have hCount : (hashCount buf).1 < 2 ^ 64 := varInt_fst_lt _
  rw [length_hashBytes, copyField_eq hBuf] at hBytes
  rw [hTree.hashesCount]
  unfold mulSize at hBytes
  unfold flagCountAt
  split_ifs at hBytes with hInside
  · rw [List.length_take, List.length_drop] at hBytes
    omega
  · rw [List.length_nil] at hBytes
    omega

/- Behind hashes that are there, no sum wraps around. -/
theorem flagCountAt_lt
    (hBuf : buf.length < 2 ^ 64)
    (hHashes :
      (hashCount buf).1 = 0 ∨ flagCountAt buf ≤ buf.length) :
    flagCountAt buf < 2 ^ 64 := by
  have hAt := hashesAt_le buf
  rcases hHashes with hNone | hInside
  · unfold flagCountAt
    rw [hNone]
    omega
  · omega

theorem flagsAt_lt
    (hBuf : buf.length < 2 ^ 64)
    (hAt : flagCountAt buf < 2 ^ 64)
    (hSome : (flagCount buf).1 ≠ 0) :
    flagsAt buf < 2 ^ 64 := by
  have hInside := varInt_inside hSome
  rw [List.length_drop] at hInside
  unfold flagsAt flagCount
  omega

/- The flags are copied from where they are looked for. -/
theorem TreeOf.flags_eq
    (hBuf : buf.length < 2 ^ 64)
    (hTree : TreeOf buf block)
    (hAt : flagCountAt buf < 2 ^ 64) :
    block.flags =
      if treeEnd buf ≤ buf.length then
        (buf.drop (flagsAt buf)).take (flagCount buf).1
      else [] := by
  rw [hTree.flags hAt, copyField_eq hBuf]
  by_cases hNone : (flagCount buf).1 = 0
  · rw [hNone, List.take_zero, List.take_zero, ite_self,
      ite_self]
  · rw [addSize_eq (flagsAt_lt hBuf hAt hNone)]
    rfl

theorem TreeOf.length_flags_iff
    (hBuf : buf.length < 2 ^ 64)
    (hTree : TreeOf buf block)
    (hAt : flagCountAt buf < 2 ^ 64) :
    block.flags.length = block.flagsLen.toNat ↔
      (flagCount buf).1 = 0 ∨ treeEnd buf ≤ buf.length := by
  rw [hTree.flags_eq hBuf hAt, hTree.flagsLen hAt]
  split_ifs with hInside
  · have hFront : flagsAt buf + (flagCount buf).1 ≤ buf.length :=
      hInside
    rw [List.length_take, List.length_drop]
    omega
  · rw [List.length_nil]
    omega

/- The arrays have their lengths if what is counted is there. -/
theorem TreeOf.filled_iff
    (hBuf : buf.length < 2 ^ 64)
    (hTree : TreeOf buf block) :
    Filled block ↔ Present buf := by
  constructor
  · intro hFilled
    have hHashes :=
      (hTree.length_hashes_iff hBuf).mp hFilled.hashes
    have hAt := flagCountAt_lt hBuf hHashes
    exact
      ⟨hHashes,
        (hTree.length_flags_iff hBuf hAt).mp hFilled.flags⟩
  · rintro ⟨hHashes, hFlags⟩
    have hAt := flagCountAt_lt hBuf hHashes
    exact
      ⟨(hTree.length_hashes_iff hBuf).mpr hHashes,
        (hTree.length_flags_iff hBuf hAt).mpr hFlags⟩

/- Behind a header alone there are no arrays. -/
theorem filled_of_header
    (hLength : buf.length < 84)
    (hParse : parse sha256_2 buf = some (some block)) :
    block.hashes = [] ∧ block.flags = [] ∧ Filled block := by
  unfold parse at hParse
  by_cases hShort : buf.length < 80
  · rw [if_pos hShort] at hParse
    cases hParse
  rw [if_neg hShort] at hParse
  simp only [Option.bind_eq_bind, Option.bind_eq_some_iff]
    at hParse
  rcases hParse with
    ⟨version, -, prevBlock, -, merkleRoot, -, timestamp, -,
      target, -, nonce, -, hTree⟩
  rw [if_neg (by omega)] at hTree
  cases hTree
  exact ⟨rfl, rfl, rfl, rfl⟩

------------------------------------------------------------
-- The Bytes Again
------------------------------------------------------------

/- Both counts are written in as few bytes as they can be. -/
def Minimal (buf : List UInt8) : Prop :=
  (hashCount buf).2 = varIntSize (hashCount buf).1 ∧
    (flagCount buf).2 = varIntSize (flagCount buf).1

instance (buf : List UInt8) : Decidable (Minimal buf) :=
  inferInstanceAs (Decidable (_ ∧ _))

theorem slice_whole (buf : List UInt8) :
    slice buf 0 buf.length = some buf := by
  rw [slice, if_pos (Nat.zero_add _).le, List.drop_zero,
    List.take_length]

theorem slice_varInt
    (off : Nat)
    (hOff : off ≤ buf.length)
    (hSize :
      (varInt (buf.drop off)).2 =
        varIntSize (varInt (buf.drop off)).1)
    (hInside : off + (varInt (buf.drop off)).2 ≤ buf.length) :
    slice buf off (varInt (buf.drop off)).2 =
      some (varIntBytes (varInt (buf.drop off)).1) := by
  rw [slice, if_pos hInside]
  refine congrArg some (take_varInt hSize.symm ?_)
  rw [List.length_drop]
  omega

/- A whole message in least sizes is its header and its tree. -/
theorem TreeOf.bytes_eq
    (hBuf : buf.length < 2 ^ 64)
    (hTree : TreeOf buf block)
    (hHeader : slice buf 0 80 = some block.headerBytes)
    (hComplete : Complete buf)
    (hMinimal : Minimal buf) :
    block.headerBytes ++ block.treeBytes = buf := by
  have hEnd := hComplete.2
  have hFlagsEnd : flagsAt buf ≤ buf.length :=
    hEnd ▸ Nat.le_add_right _ _
  have hFlagAt : flagCountAt buf ≤ buf.length :=
    le_trans (Nat.le_add_right _ _) hFlagsEnd
  have hAt : hashesAt buf ≤ buf.length :=
    le_trans (Nat.le_add_right _ _) hFlagAt
  have hFits : flagCountAt buf < 2 ^ 64 :=
    lt_of_le_of_lt hFlagAt hBuf
  have hSize :
      mulSize (hashCount buf).1 32 = (hashCount buf).1 * 32 :=
    Nat.mod_eq_of_lt
      (lt_of_le_of_lt (Nat.le_add_left _ _) hFits)
  have hHashCount :=
    slice_varInt 84 hComplete.1 hMinimal.1 hAt
  have hHashes :
      slice buf (hashesAt buf) ((hashCount buf).1 * 32) =
        some (hashBytes block.hashes) := by
    rw [hTree.hashes, hSize, copyField_eq hBuf]
    have hInside :
        hashesAt buf + (hashCount buf).1 * 32 ≤ buf.length :=
      hFlagAt
    rw [slice, if_pos hInside, if_pos hInside]
  have hFlagCount :=
    slice_varInt (flagCountAt buf) hFlagAt hMinimal.2
      hFlagsEnd
  have hFlags :
      slice buf (flagsAt buf) (flagCount buf).1 =
        some block.flags := by
    rw [hTree.flags_eq hBuf hFits, if_pos hEnd.le, slice]
    exact if_pos hEnd.le
  have hAll :=
    slice_append hHeader
      (slice_append hTree.totalTx
        (slice_append hHashCount
          (slice_append hHashes
            (slice_append hFlagCount hFlags))))
  have hLength :
      80 + (4 + ((hashCount buf).2 +
        ((hashCount buf).1 * 32 +
          ((flagCount buf).2 + (flagCount buf).1)))) =
        buf.length := by
    rw [← hEnd]
    unfold treeEnd flagsAt flagCountAt hashesAt
    omega
  have hWhole := slice_whole buf
  rw [← hLength] at hWhole
  rw [treeBytes, hTree.hashesCount, hTree.flagsLen hFits]
  exact Option.some.inj (hAll.symm.trans hWhole)

------------------------------------------------------------
-- Parsed Blocks
------------------------------------------------------------

/-
  A parsed block is well formed: its arrays have the lengths
  that it gives and come from the buffer, what its readers
  read is there, and a whole message is written again as it
  was.
-/
structure WellFormed
    (sha256_2 : List UInt8 → UInt256)
    (buf : List UInt8)
    (block : BRMerkleBlock UInt256) : Prop where
  filled : Filled block
  hashes : hashBytes block.hashes <:+: buf
  flags : block.flags <:+: buf
  reads :
    ∀ cursor : Cursor, block.hasNext cursor = true →
      (∃ flag, block.flagAt cursor.flagIdx = some flag) ∧
        ∃ hash, block.hashes[cursor.hashIdx]? = some hash
  walks :
    ∀ depth, block.treeDepth = some depth →
      (∃ root,
        block.computedRoot (fun left right =>
          sha256_2 (left.toList ++ right.toList)) =
            some root) ∧
      ∀ destination, ∃ result,
        block.txHashes destination = some result
  contains :
    ∀ txHash, ∃ found, block.containsTxHash txHash = some found
  serialize :
    Complete buf →
      ∀ room : List UInt8, room.length = buf.length →
        block.serialize (some room) =
          some (buf.length, some buf)

/- The parser reads inside, and what it returns is well formed. -/
def ParsesWell
    (sha256_2 : List UInt8 → UInt256)
    (buf : List UInt8) : Prop :=
  ∃ result, parse sha256_2 buf = some result ∧
    ∀ block, result = some block →
      WellFormed sha256_2 buf block

/- A search over the hashes that are there ends. -/
theorem containsFrom_total
    (txHash : UInt256)
    {rounds i : Nat}
    (hRounds : i + rounds ≤ block.hashes.length) :
    ∃ found,
      block.containsFrom txHash rounds i = some found := by
  induction rounds generalizing i with
  | zero => exact ⟨_, rfl⟩
  | succ rounds ih =>
      unfold containsFrom
      rw [List.getElem?_eq_getElem (by omega)]
      dsimp only [Option.bind_eq_bind, Option.bind_some]
      split_ifs
      · exact ⟨_, rfl⟩
      · exact ih (by omega)

/- A depth that is computed is at most 31. -/
theorem treeDepth_le
    {depth : Nat}
    (hDepth : block.treeDepth = some depth) :
    depth < maxDepth := by
  unfold treeDepth at hDepth
  by_cases hSmall : block.totalTx.toBitVec.toNat < 2 ^ 31
  · rw [ceilLog2_eq_clog hSmall] at hDepth
    cases hDepth
    exact lt_of_le_of_lt (clog_two_le hSmall) (by decide)
  · rw [ceilLog2_eq_none (not_lt.mp hSmall)] at hDepth
    cases hDepth

/- Arrays that have their lengths are enough for every reader. -/
theorem Filled.wellFormed
    (hFilled : Filled block)
    (hHashes : hashBytes block.hashes <:+: buf)
    (hFlags : block.flags <:+: buf)
    (hSerialize :
      Complete buf →
        ∀ room : List UInt8, room.length = buf.length →
          block.serialize (some room) =
            some (buf.length, some buf)) :
    WellFormed sha256_2 buf block := by
  refine
    ⟨hFilled, hHashes, hFlags, fun cursor => hFilled.reads, ?_,
      ?_, hSerialize⟩
  · intro depth hDepth
    have hBound : depth < 0 + maxDepth := by
      rw [Nat.zero_add]
      exact treeDepth_le hDepth
    constructor
    · rcases
          rootR_total
            (fun left right : UInt256 =>
              sha256_2 (left.toList ++ right.toList))
            hFilled hDepth (Nat.zero_le _) hBound ⟨0, 0⟩ with
        ⟨result, hResult⟩
      exact ⟨_, congrArg (Option.map Prod.fst) hResult⟩
    · intro destination
      rcases
          txHashesR_total hFilled destination hDepth
            (Nat.zero_le _) hBound ⟨0, [], ⟨0, 0⟩⟩ with
        ⟨state, hState⟩
      exact ⟨_, congrArg (Option.map _) hState⟩
  · intro txHash
    apply containsFrom_total
    rw [Nat.zero_add]
    exact hFilled.hashes.ge

/- What is returned is the size, unless there is no room. -/
theorem serialize_size
    {room : List UInt8}
    {size : Nat}
    {written : Option (List UInt8)}
    (hSerialize :
      block.serialize (some room) = some (size, written)) :
    size = block.serializedSize ∨ size = 0 := by
  unfold serialize at hSerialize
  dsimp only at hSerialize
  by_cases hRoom : block.serializedSize ≤ room.length
  · rw [if_pos hRoom] at hSerialize
    simp only [Option.bind_eq_bind, Option.bind_eq_some_iff]
      at hSerialize
    rcases hSerialize with ⟨tree, -, hTree⟩
    cases hTree
    exact Or.inl rfl
  · rw [if_neg hRoom] at hSerialize
    cases hSerialize
    exact Or.inr rfl

/- A message of its own size has a tree, in least sizes. -/
theorem TreeOf.minimal
    (hBuf : buf.length < 2 ^ 64)
    (hTree : TreeOf buf block)
    (hComplete : Complete buf)
    (hSize : buf.length = block.serializedSize) :
    Minimal buf ∧ block.totalTx ≠ 0 := by
  have hLength := hComplete.1
  have hEnd := hComplete.2
  have hTotal : block.totalTx ≠ 0 := by
    intro hZero
    rw [serializedSize, if_pos hZero] at hSize
    omega
  unfold treeEnd flagsAt flagCountAt hashesAt at hEnd
  have hAt : flagCountAt buf < 2 ^ 64 := by
    unfold flagCountAt hashesAt
    omega
  have hHashes :
      mulSize (hashCount buf).1 32 = (hashCount buf).1 * 32 :=
    Nat.mod_eq_of_lt (by omega)
  have hFirst := varIntSize_le (buf.drop 84)
  have hSecond := varIntSize_le (buf.drop (flagCountAt buf))
  change varIntSize (hashCount buf).1 ≤ (hashCount buf).2
    at hFirst
  change varIntSize (flagCount buf).1 ≤ (flagCount buf).2
    at hSecond
  rw [serializedSize, if_neg hTotal, hTree.hashesCount,
    hTree.flagsLen hAt, hHashes, addSize_eq (by omega)] at hSize
  refine ⟨⟨?_, ?_⟩, hTotal⟩
  · omega
  · omega

/- The count of transactions is what was read. -/
theorem TreeOf.totalTx_eq_zero_iff
    (hTree : TreeOf buf block) :
    getUInt32LE buf 80 = some 0 ↔ block.totalTx = 0 := by
  have hFits : block.totalTx.toNat < 256 ^ 4 :=
    block.totalTx.toNat_lt
  rw [getUInt32LE, hTree.totalTx, Option.map_some,
    ofLittleEndian_littleEndian 4 hFits, UInt32.ofNat_toNat,
    Option.some_inj]

theorem TreeOf.wellFormed
    (hBuf : buf.length < 2 ^ 64)
    (hTree : TreeOf buf block)
    (hHeader : slice buf 0 80 = some block.headerBytes)
    (hPresent : Present buf)
    (hWhole :
      Complete buf → Minimal buf ∧ block.totalTx ≠ 0) :
    WellFormed sha256_2 buf block := by
  have hFilled := (hTree.filled_iff hBuf).mpr hPresent
  apply hFilled.wellFormed
  · rw [hTree.hashes]
    exact copyField_infix _ _ _
  · rw [hTree.flags (flagCountAt_lt hBuf hPresent.1)]
    exact copyField_infix _ _ _
  · intro hComplete room hRoom
    rcases hWhole hComplete with ⟨hMinimal, hTotal⟩
    have hBytes :=
      hTree.bytes_eq hBuf hHeader hComplete hMinimal
    have hLength := congrArg List.length hBytes
    rw [List.length_append, length_headerBytes] at hLength
    have hFits : 80 + block.treeBytes.length < 2 ^ 64 := by
      rw [hLength]
      exact hBuf
    have hSize := hFilled.length_treeBytes hTotal hFits
    rw [hLength] at hSize
    rw [serialize_eq hFilled hTotal hFits (hRoom.trans hSize),
      hBytes, hSize]

/-
  Parsed blocks are well formed exactly if the arrays that are
  counted are there, and a whole message counts transactions
  and does so in least sizes.
-/
theorem parsesWell_iff
    (sha256_2 : List UInt8 → UInt256)
    {buf : List UInt8}
    (hBuf : buf.length < 2 ^ 64) :
    ParsesWell sha256_2 buf ↔
      (84 ≤ buf.length →
        Present buf ∧
          (Complete buf →
            Minimal buf ∧ getUInt32LE buf 80 ≠ some 0)) := by
  constructor
  · rintro ⟨result, hResult, hWell⟩ hLength
    rcases exists_parse_of_le sha256_2
        (le_trans (by decide : 80 ≤ 84) hLength) with
      ⟨block, hParse⟩
    cases hResult.symm.trans hParse
    have hTree := tree_of_parse hBuf hLength hParse
    have hBlock := hWell block rfl
    refine ⟨(hTree.filled_iff hBuf).mp hBlock.filled, ?_⟩
    intro hComplete
    have hAgain := hBlock.serialize hComplete buf rfl
    rw [Ne, hTree.totalTx_eq_zero_iff]
    apply hTree.minimal hBuf hComplete
    rcases serialize_size hAgain with hSize | hEmpty
    · exact hSize
    · omega
  · intro hCondition
    by_cases hShort : buf.length < 80
    · exact ⟨none, if_pos hShort, fun _ hNone => nomatch hNone⟩
    rcases exists_parse_of_le sha256_2 (not_lt.mp hShort) with
      ⟨block, hParse⟩
    refine ⟨some block, hParse, ?_⟩
    rintro _ ⟨rfl⟩
    by_cases hLength : 84 ≤ buf.length
    · rcases hCondition hLength with ⟨hPresent, hWhole⟩
      have hTree := tree_of_parse hBuf hLength hParse
      rw [Ne, hTree.totalTx_eq_zero_iff] at hWhole
      exact
        hTree.wellFormed hBuf (header_of_parse hParse) hPresent
          hWhole
    · rcases filled_of_header (not_le.mp hLength) hParse with
        ⟨hHashes, hFlags, hFilled⟩
      apply hFilled.wellFormed
      · rw [hHashes]
        exact List.nil_infix
      · rw [hFlags]
        exact List.nil_infix
      · intro hComplete
        exact absurd hComplete.1 hLength

/- A message of one transaction, whose hash is matched. -/
def wholeMessage : List UInt8 :=
  List.replicate 80 0 ++ [1, 0, 0, 0, 1] ++
    List.replicate 32 7 ++ [1, 1]

theorem wholeMessage_parsesWell :
    wholeMessage.length < 2 ^ 64 ∧
      ParsesWell (fun _ => 0) wholeMessage := by
  have hFits : wholeMessage.length < 2 ^ 64 := by
    decide +kernel
  refine ⟨hFits, (parsesWell_iff (fun _ => 0) hFits).mpr ?_⟩
  decide +kernel

/- A count of one hash behind which the message ends. -/
def truncatedMessage : List UInt8 :=
  List.replicate 80 0 ++ [1, 0, 0, 0, 1]

theorem truncatedMessage_not_parsesWell :
    ¬ ParsesWell (fun _ => 0) truncatedMessage := by
  rintro ⟨result, hResult, hWell⟩
  have hParse :
      (parse (fun _ => 0) truncatedMessage).map
          (Option.map fun block =>
            (block.hashes.length, block.hashesCount)) =
        some (some (0, 1)) := by
    decide +kernel
  rw [hResult] at hParse
  cases result with
  | none => cases hParse
  | some block =>
      have hFilled := (hWell block rfl).filled.hashes
      simp only [Option.map_some, Option.some.injEq,
        Prod.mk.injEq] at hParse
      rw [hParse.1, hParse.2] at hFilled
      cases hFilled

end BRMerkleBlock

end PlusWallet
