import PlusWallet.Ethereum.BREthereumBlock
import PlusWallet.Ethereum.Transactions
import PlusWallet.Library.Faults

/-
  Which headers and blocks come back of their bytes.

  Main declarations:
    * `Ethereum.HeaderFields`, `Ethereum.canonicalHeader`
    * `Ethereum.blockHeader_roundTrip`
    * `Ethereum.header_canonical_iff`
    * `Ethereum.block_law`
-/

namespace PlusWallet

open Bytes Rlp

namespace Ethereum

------------------------------------------------------------
-- Trees of Headers
------------------------------------------------------------

/- The first 13 fields of a header. -/
structure HeaderFields where
  parentHash : BREthereumHash
  ommersHash : BREthereumHash
  beneficiary : BREthereumAddressRaw
  stateRoot : BREthereumHash
  transactionsRoot : BREthereumHash
  receiptsRoot : BREthereumHash
  logsBloom : BREthereumBloomFilter
  difficulty : UInt64
  number : UInt64
  gasLimit : UInt64
  gasUsed : UInt64
  timestamp : UInt64
  extraData : List UInt8

/- The fields behind: none, those of a header, or a seed too. -/
inductive HeaderEnd where
  | bare
  | mixed
      (mixHash : BREthereumHash)
      (nonce : List.Vector UInt8 8)
  | seeded
      (seedHash mixHash : BREthereumHash)
      (nonce : List.Vector UInt8 8)

/- The bytes of 13 fields, with a form for their numbers. -/
def fieldLeaves
    (fields : HeaderFields)
    (zeroAsEmptyString : Bool) : List (List UInt8) :=
  [fields.parentHash.toList, fields.ommersHash.toList,
    fields.beneficiary.toList, fields.stateRoot.toList,
    fields.transactionsRoot.toList, fields.receiptsRoot.toList,
    fields.logsBloom.toList,
    uint64Bytes fields.difficulty zeroAsEmptyString,
    uint64Bytes fields.number zeroAsEmptyString,
    uint64Bytes fields.gasLimit zeroAsEmptyString,
    uint64Bytes fields.gasUsed zeroAsEmptyString,
    uint64Bytes fields.timestamp zeroAsEmptyString,
    fields.extraData]

/- The bytes of the fields behind. -/
def endLeaves : HeaderEnd → List (List UInt8)
  | .bare => []
  | .mixed mixHash nonce => [mixHash.toList, nonce.toList]
  | .seeded seedHash mixHash nonce =>
      [seedHash.toList, mixHash.toList, nonce.toList]

/- The canonical form: no number has a zero byte in front. -/
def canonicalHeader
    (fields : HeaderFields)
    (ending : HeaderEnd) : RlpTree :=
  .node
    (([fields.parentHash.toList, fields.ommersHash.toList,
          fields.beneficiary.toList, fields.stateRoot.toList,
          fields.transactionsRoot.toList,
          fields.receiptsRoot.toList, fields.logsBloom.toList,
          natBytes fields.difficulty.toNat,
          natBytes fields.number.toNat,
          natBytes fields.gasLimit.toNat,
          natBytes fields.gasUsed.toNat,
          natBytes fields.timestamp.toNat,
          fields.extraData] ++
        endLeaves ending).map
      .leaf)

theorem canonicalHeader_eq
    (fields : HeaderFields)
    (ending : HeaderEnd) :
    canonicalHeader fields ending =
      .node
        ((fieldLeaves fields true ++ endLeaves ending).map
          .leaf) := by
  unfold canonicalHeader fieldLeaves
  simp only [uint64Bytes_eq_natBytes]

/- The fields of a header, with the data that are counted. -/
def fieldsOf (header : BREthereumBlockHeader) : HeaderFields where
  parentHash := header.parentHash
  ommersHash := header.ommersHash
  beneficiary := header.beneficiary
  stateRoot := header.stateRoot
  transactionsRoot := header.transactionsRoot
  receiptsRoot := header.receiptsRoot
  logsBloom := header.logsBloom
  difficulty := header.difficulty
  number := header.number
  gasLimit := header.gasLimit
  gasUsed := header.gasUsed
  timestamp := header.timestamp
  extraData :=
    header.extraData.toList.take header.extraDataCount.toNat

/- The leaves of a header with its nonce, as it is written. -/
def headerLeaves
    (header : BREthereumBlockHeader) : List (List UInt8) :=
  fieldLeaves (fieldsOf header) false ++
    [header.seedHash.toList, header.mixHash.toList,
      uint64Bytes header.nonce false]

------------------------------------------------------------
-- Encoders
------------------------------------------------------------

theorem blockHeaderRlpEncodeItem_eq
    {header : BREthereumBlockHeader}
    (hCount : header.extraDataCount.toNat ≤ 32)
    (coder : BRRlpCoder) :
    blockHeaderRlpEncodeItem header true coder =
      encodeTree coder
        (.node ((headerLeaves header).map .leaf)) := by
  have hSlice :
      slice header.extraData.toList 0
          header.extraDataCount.toNat =
        some
          (header.extraData.toList.take
            header.extraDataCount.toNat) := by
    unfold slice
    rw [header.extraData.toList_length, Nat.zero_add,
      if_pos hCount]
    rfl
  unfold blockHeaderRlpEncodeItem encodeNonce extraDataRlpEncode
    headerLeaves fieldLeaves fieldsOf
  simp only [hashRlpEncode, addressRawRlpEncode,
    bloomFilterRlpEncode, fixedRlpEncode_eq, encodeTree,
    encodeTrees, encodeUInt64_eq, hSlice, if_true,
    Option.bind_eq_bind, Option.bind_some, List.map_cons,
    List.map_nil, List.cons_append,
    List.nil_append]

theorem length_leaf_le
    {fields : HeaderFields}
    (hExtra : fields.extraData.length < 2 ^ 20)
    (zeroAsEmptyString : Bool) :
    ∀ bytes ∈ fieldLeaves fields zeroAsEmptyString,
      bytes.length < 2 ^ 20 := by
  have hNumber :
      ∀ number : UInt64,
        (uint64Bytes number zeroAsEmptyString).length <
          2 ^ 20 := by
    intro number
    have hLength := length_uint64Bytes number zeroAsEmptyString
    omega
  unfold fieldLeaves
  simp only [List.forall_mem_cons, hNumber, hExtra,
    List.Vector.toList_length, true_and]
  decide

theorem length_endLeaf_lt (ending : HeaderEnd) :
    (endLeaves ending).length ≤ 3 ∧
      ∀ bytes ∈ endLeaves ending, bytes.length < 2 ^ 20 := by
  cases ending <;>
    simp [endLeaves]

/- A header that memory holds is written. -/
theorem stored_headerLeaves
    {header : BREthereumBlockHeader}
    (hCount : header.extraDataCount.toNat ≤ 32) :
    Stored (.node ((headerLeaves header).map .leaf)) := by
  have hExtra : (fieldsOf header).extraData.length ≤ 32 := by
    unfold fieldsOf
    have hTake :=
      List.length_take_le header.extraDataCount.toNat
        header.extraData.toList
    dsimp only
    omega
  apply stored_leaves
  · exact (by decide : 16 < 2 ^ 20)
  · intro bytes hBytes
    rcases List.mem_append.mp hBytes with hFirst | hLast
    · exact length_leaf_le (by omega) false bytes hFirst
    · have hNonce := length_uint64Bytes header.nonce false
      simp only [List.mem_cons, List.not_mem_nil, or_false]
        at hLast
      rcases hLast with rfl | rfl | rfl
      · rw [header.seedHash.toList_length]
        decide
      · rw [header.mixHash.toList_length]
        decide
      · omega

theorem blockHeaderEncodeRLP_eq
    {header : BREthereumBlockHeader}
    (hCount : header.extraDataCount.toNat ≤ 32) :
    blockHeaderEncodeRLP header true =
      some
        (encoding (.node ((headerLeaves header).map .leaf))) :=
  (encodeRLP_eq_some_iff (blockHeaderRlpEncodeItem_eq hCount)
    _).mpr ⟨stored_headerLeaves hCount, rfl⟩

------------------------------------------------------------
-- Decoders
------------------------------------------------------------

/- A header of its fields, before it has a hash. -/
def headerOf
    (fields : HeaderFields)
    (extraData : List.Vector UInt8 32)
    (seedHash mixHash : BREthereumHash)
    (nonce : UInt64) : BREthereumBlockHeader where
  parentHash := fields.parentHash
  ommersHash := fields.ommersHash
  beneficiary := fields.beneficiary
  stateRoot := fields.stateRoot
  transactionsRoot := fields.transactionsRoot
  receiptsRoot := fields.receiptsRoot
  logsBloom := fields.logsBloom
  difficulty := fields.difficulty
  number := fields.number
  gasLimit := fields.gasLimit
  gasUsed := fields.gasUsed
  timestamp := fields.timestamp
  extraData := extraData
  extraDataCount := UInt8.ofNat fields.extraData.length
  seedHash := seedHash
  mixHash := mixHash
  nonce := nonce
  hash := hashCreateEmpty

/- A check that passes leaves the rest. -/
theorem checked_bind
    {Value Result : Type}
    (value : Value)
    (rest : Value → Except BlockFault Result) :
    (checked (some value) >>= rest) = rest value := rfl

section Reading

variable {item : BRRlpItem}
variable {coder : BRRlpCoder}
variable {fields : HeaderFields}
variable {zeroAsEmptyString : Bool}

/- 13 fields are a header without a nonce. -/
theorem decodeItem_bare
    (hReads :
      Reads coder item
        (.node
          ((fieldLeaves fields zeroAsEmptyString).map
            .leaf))) :
    blockHeaderRlpDecodeItem item coder =
      (copyExtraData fields.extraData).map fun extraData =>
        headerOf fields extraData hashCreateEmpty
          hashCreateEmpty 0 := by
  rcases hReads.node with ⟨items, hItems, hAll⟩
  unfold fieldLeaves at hAll
  simp only [List.map_cons, List.map_nil] at hAll
  rcases hAll with _ | ⟨h0, _ | ⟨h1, _ | ⟨h2, _ | ⟨h3,
    _ | ⟨h4, _ | ⟨h5, _ | ⟨h6, _ | ⟨h7, _ | ⟨h8, _ | ⟨h9,
      _ | ⟨h10, _ | ⟨h11, _ | ⟨h12, _ | _⟩⟩⟩⟩⟩⟩⟩⟩⟩⟩⟩⟩⟩
  unfold blockHeaderRlpDecodeItem
  simp only [hItems, hashRlpDecode, addressRawRlpDecode,
    bloomFilterRlpDecode, h0.fixed, h1.fixed, h2.fixed,
    h3.fixed, h4.fixed, h5.fixed, h6.fixed, h7.uint64Bytes,
    h8.uint64Bytes, h9.uint64Bytes, h10.uint64Bytes,
    h11.uint64Bytes, h12.leaf.2, checked_bind, List.length_nil,
    true_or, if_true]
  cases copyExtraData fields.extraData <;> rfl

/- 16 fields are a header with a seed hash and a nonce. -/
theorem decodeItem_seeded
    {seedHash mixHash : BREthereumHash}
    {nonceBytes : List UInt8}
    {nonce : UInt64}
    (hReads :
      Reads coder item
        (.node
          ((fieldLeaves fields zeroAsEmptyString ++
              [seedHash.toList, mixHash.toList,
                nonceBytes]).map
            .leaf)))
    (hNonce :
      ((convertFromBigEndian 8 nonceBytes).map fun number =>
          UInt64.ofNat (ofLittleEndian number)) =
        some nonce) :
    blockHeaderRlpDecodeItem item coder =
      (copyExtraData fields.extraData).map fun extraData =>
        headerOf fields extraData seedHash mixHash nonce := by
  rcases hReads.node with ⟨items, hItems, hAll⟩
  unfold fieldLeaves at hAll
  simp only [List.map_cons, List.map_nil, List.cons_append,
    List.nil_append] at hAll
  rcases hAll with _ | ⟨h0, _ | ⟨h1, _ | ⟨h2, _ | ⟨h3,
    _ | ⟨h4, _ | ⟨h5, _ | ⟨h6, _ | ⟨h7, _ | ⟨h8, _ | ⟨h9,
      _ | ⟨h10, _ | ⟨h11, _ | ⟨h12, _ | ⟨h13, _ | ⟨h14,
        _ | ⟨h15, _ | _⟩⟩⟩⟩⟩⟩⟩⟩⟩⟩⟩⟩⟩⟩⟩⟩
  have hRead := h15.uint64 false
  rw [hNonce] at hRead
  unfold blockHeaderRlpDecodeItem
  simp only [hItems, hashRlpDecode, addressRawRlpDecode,
    bloomFilterRlpDecode, h0.fixed, h1.fixed, h2.fixed,
    h3.fixed, h4.fixed, h5.fixed, h6.fixed, h7.uint64Bytes,
    h8.uint64Bytes, h9.uint64Bytes, h10.uint64Bytes,
    h11.uint64Bytes, h12.leaf.2, h13.fixed, h14.fixed, hRead,
    checked_bind, List.length_cons, List.length_nil, or_true,
    if_true]
  cases copyExtraData fields.extraData <;> rfl

/- 15 fields are refused. -/
theorem decodeItem_mixed
    {mixHash : BREthereumHash}
    {nonceBytes : List UInt8}
    (hReads :
      Reads coder item
        (.node
          ((fieldLeaves fields zeroAsEmptyString ++
              [mixHash.toList, nonceBytes]).map
            .leaf))) :
    blockHeaderRlpDecodeItem item coder = .error .failed := by
  rcases hReads.node with ⟨items, hItems, hAll⟩
  unfold fieldLeaves at hAll
  simp only [List.map_cons, List.map_nil, List.cons_append,
    List.nil_append] at hAll
  rcases hAll with _ | ⟨-, _ | ⟨-, _ | ⟨-, _ | ⟨-,
    _ | ⟨-, _ | ⟨-, _ | ⟨-, _ | ⟨-, _ | ⟨-, _ | ⟨-,
      _ | ⟨-, _ | ⟨-, _ | ⟨-, _ | ⟨-, _ | ⟨-,
        _ | _⟩⟩⟩⟩⟩⟩⟩⟩⟩⟩⟩⟩⟩⟩⟩
  unfold blockHeaderRlpDecodeItem
  rw [hItems]
  rfl

end Reading

------------------------------------------------------------
-- Extra Data
------------------------------------------------------------

theorem copyExtraData_ok
    {bytes : List UInt8}
    (hFits : bytes.length ≤ 32) :
    ∃ extraData,
      copyExtraData bytes = .ok extraData ∧
        extraData.toList.take bytes.length = bytes := by
  refine ⟨_, dif_pos hFits, ?_⟩
  exact List.take_left' rfl

theorem copyExtraData_overrun
    {bytes : List UInt8}
    (hLong : 32 < bytes.length) :
    copyExtraData bytes = .error .overrun :=
  dif_neg (Nat.not_le.mpr hLong)

/- A header has the fields that it was read from. -/
theorem fieldsOf_headerOf
    {fields : HeaderFields}
    (hFits : fields.extraData.length ≤ 32)
    {extraData : List.Vector UInt8 32}
    (hKept :
      extraData.toList.take fields.extraData.length =
        fields.extraData)
    (seedHash mixHash : BREthereumHash)
    (nonce : UInt64) :
    fieldsOf (headerOf fields extraData seedHash mixHash nonce) =
      fields := by
  have hCount :
      (UInt8.ofNat fields.extraData.length).toNat =
        fields.extraData.length := by
    rw [UInt8.toNat_ofNat', Nat.mod_eq_of_lt (by omega)]
  unfold fieldsOf headerOf
  dsimp only
  rw [hCount, hKept]

------------------------------------------------------------
-- Numbers
------------------------------------------------------------

/- Both forms of a number agree unless it is zero. -/
theorem uint64Bytes_forms_iff (number : UInt64) :
    uint64Bytes number false = uint64Bytes number true ↔
      number ≠ 0 := by
  constructor
  · rintro hSame rfl
    exact absurd hSame (by decide)
  · intro hNumber
    unfold uint64Bytes
    rw [if_neg (fun hBoth => Bool.false_ne_true hBoth.1),
      if_neg (fun hBoth => hNumber hBoth.2)]

/- The number that a nonce of eight bytes is read as. -/
def nonceOf (nonce : List.Vector UInt8 8) : UInt64 :=
  UInt64.ofNat (ofBigEndian nonce.toList)

theorem nonceOf_toNat (nonce : List.Vector UInt8 8) :
    (nonceOf nonce).toNat = ofBigEndian nonce.toList := by
  have hSmall := ofLittleEndian_lt nonce.toList.reverse
  rw [List.length_reverse, nonce.toList_length] at hSmall
  unfold nonceOf ofBigEndian
  rw [UInt64.toNat_ofNat']
  exact Nat.mod_eq_of_lt hSmall

theorem nonce_read (nonce : List.Vector UInt8 8) :
    ((convertFromBigEndian 8 nonce.toList).map fun number =>
        UInt64.ofNat (ofLittleEndian number)) =
      some (nonceOf nonce) := by
  unfold convertFromBigEndian
  rw [nonce.toList_length, if_pos (le_refl 8)]
  rfl

/- A nonce is written again if it has no zero byte in front. -/
theorem nonce_written_iff (nonce : List.Vector UInt8 8) :
    uint64Bytes (nonceOf nonce) false = nonce.toList ↔
      nonce.head ≠ 0 := by
  rw [← natBytes_ofBigEndian_eq_iff, ← nonceOf_toNat]
  by_cases hZero : nonceOf nonce = 0
  · have hLength := nonce.toList_length
    rw [hZero]
    constructor
    · intro hSame
      rw [← hSame] at hLength
      exact absurd hLength (by decide)
    · intro hSame
      rw [← hSame] at hLength
      exact absurd hLength (by decide)
  · rw [(uint64Bytes_forms_iff _).mpr hZero,
      uint64Bytes_eq_natBytes]

/- The numbers that the encoder writes another way are zeros. -/
def NumbersNonzero (fields : HeaderFields) : Prop :=
  fields.difficulty ≠ 0 ∧ fields.number ≠ 0 ∧
    fields.gasLimit ≠ 0 ∧ fields.gasUsed ≠ 0 ∧
    fields.timestamp ≠ 0

theorem fieldLeaves_forms_iff (fields : HeaderFields) :
    fieldLeaves fields false = fieldLeaves fields true ↔
      NumbersNonzero fields := by
  unfold fieldLeaves NumbersNonzero
  simp only [List.cons.injEq, true_and, and_true,
    uint64Bytes_forms_iff]

------------------------------------------------------------
-- Headers That Come Back
------------------------------------------------------------

/- The hash that a full header gets. -/
def withHash
    (BRKeccak256 : List UInt8 → UInt256)
    (data : List UInt8)
    (header : BREthereumBlockHeader) : BREthereumBlockHeader :=
  if header.nonce ≠ 0 then
    { header with hash := BRKeccak256 data }
  else header

/- Decoding starts at an item that is read as the tree. -/
theorem blockHeaderDecodeRLP_eq
    (BRKeccak256 : List UInt8 → UInt256)
    {tree : RlpTree}
    (hMemory : (encoding tree).length < 2 ^ 64)
    (hStored : Stored tree) :
    ∃ item coder,
      Reads coder item tree ∧
        blockHeaderDecodeRLP BRKeccak256 (encoding tree) =
          (blockHeaderRlpDecodeItem item coder).map
            (withHash BRKeccak256 (encoding tree)) := by
  rcases getItem_encoding hMemory hStored rlpCoderCreate with
    ⟨item, coder, hRead, hTree⟩
  refine ⟨item, coder, ⟨_, hTree⟩, ?_⟩
  unfold blockHeaderDecodeRLP withHash
  rw [hRead, checked_bind]
  dsimp only
  cases blockHeaderRlpDecodeItem item coder with
  | error fault => rfl
  | ok header =>
      by_cases hNonce : header.nonce ≠ 0
      · change
          (if header.nonce ≠ 0 then _ else _) =
            Except.ok (if header.nonce ≠ 0 then _ else _)
        rw [if_pos hNonce, if_pos hNonce]
        rfl
      · change
          (if header.nonce ≠ 0 then _ else _) =
            Except.ok (if header.nonce ≠ 0 then _ else _)
        rw [if_neg hNonce, if_neg hNonce]
        rfl

/- The hash is no part of what is written. -/
theorem headerLeaves_withHash
    (BRKeccak256 : List UInt8 → UInt256)
    (data : List UInt8)
    (header : BREthereumBlockHeader) :
    headerLeaves (withHash BRKeccak256 data header) =
        headerLeaves header ∧
      (withHash BRKeccak256 data header).extraDataCount =
        header.extraDataCount := by
  unfold withHash
  split_ifs <;> exact ⟨rfl, rfl⟩

/-
  Every header comes back of its bytes, apart from its hash and
  from the extra data that were not counted.
-/
theorem blockHeader_roundTrip
    (BRKeccak256 : List UInt8 → UInt256)
    {header : BREthereumBlockHeader}
    (hCount : header.extraDataCount.toNat ≤ 32) :
    ∃ data extraData,
      blockHeaderEncodeRLP header true = some data ∧
        blockHeaderDecodeRLP BRKeccak256 data =
          .ok
            (withHash BRKeccak256 data
              { header with
                extraData := extraData
                hash := hashCreateEmpty }) ∧
        extraData.toList.take header.extraDataCount.toNat =
          header.extraData.toList.take
            header.extraDataCount.toNat := by
  have hStored := stored_headerLeaves hCount
  have hMemory := hStored
  rw [Stored] at hMemory
  rcases blockHeaderDecodeRLP_eq BRKeccak256 hMemory.2.1 hStored
    with ⟨item, coder, hReads, hDecode⟩
  have hTake :
      (fieldsOf header).extraData.length =
        header.extraDataCount.toNat := by
    unfold fieldsOf
    rw [List.length_take, header.extraData.toList_length]
    omega
  rcases copyExtraData_ok (hTake.trans_le hCount) with
    ⟨extraData, hCopy, hKept⟩
  have hItem :=
    decodeItem_seeded hReads (uint64_of_bytes header.nonce false)
  rw [hCopy] at hItem
  refine
    ⟨_, extraData, blockHeaderEncodeRLP_eq hCount, ?_, ?_⟩
  · rw [hDecode, hItem]
    unfold headerOf
    rw [hTake, UInt8.ofNat_toNat]
    rfl
  · rw [hTake] at hKept
    exact hKept

section Canonical

variable (BRKeccak256 : List UInt8 → UInt256)

/- A canonical form is read, and then written again. -/
def HeaderRoundTrips
    (fields : HeaderFields)
    (ending : HeaderEnd) : Prop :=
  ∃ header,
    blockHeaderDecodeRLP BRKeccak256
        (encoding (canonicalHeader fields ending)) =
      .ok header ∧
    blockHeaderEncodeRLP header true =
      some (encoding (canonicalHeader fields ending))

/- The headers that are: they have a seed and no short number. -/
def Comparable
    (fields : HeaderFields) : HeaderEnd → Prop
  | .bare => False
  | .mixed _ _ => False
  | .seeded _ _ nonce => NumbersNonzero fields ∧ nonce.head ≠ 0

theorem stored_canonicalHeader
    (fields : HeaderFields)
    (ending : HeaderEnd)
    (hMemory :
      (encoding (canonicalHeader fields ending)).length <
        2 ^ 64) :
    Stored (canonicalHeader fields ending) := by
  have hAll :
      ∀ leaves : List (List UInt8),
        AllStored (leaves.map .leaf) := by
    intro leaves
    induction leaves with
    | nil =>
        rw [List.map_nil, AllStored]
        trivial
    | cons bytes leaves ih =>
        rw [List.map_cons, AllStored, Stored]
        exact ⟨trivial, ih⟩
  have hCount := (length_endLeaf_lt ending).1
  rw [canonicalHeader_eq] at hMemory ⊢
  rw [Stored]
  refine ⟨?_, hMemory, hAll _⟩
  rw [List.length_map, List.length_append]
  have hFields : (fieldLeaves fields true).length = 13 := rfl
  omega

/- What the decoder makes of a canonical form. -/
theorem decode_canonical
    {fields : HeaderFields}
    {ending : HeaderEnd}
    (hMemory :
      (encoding (canonicalHeader fields ending)).length <
        2 ^ 64) :
    blockHeaderDecodeRLP BRKeccak256
        (encoding (canonicalHeader fields ending)) =
      match ending with
      | .mixed _ _ => .error .failed
      | .bare =>
          (copyExtraData fields.extraData).map fun extraData =>
            withHash BRKeccak256
              (encoding (canonicalHeader fields ending))
              (headerOf fields extraData hashCreateEmpty
                hashCreateEmpty 0)
      | .seeded seedHash mixHash nonce =>
          (copyExtraData fields.extraData).map fun extraData =>
            withHash BRKeccak256
              (encoding (canonicalHeader fields ending))
              (headerOf fields extraData seedHash mixHash
                (nonceOf nonce)) := by
  rcases blockHeaderDecodeRLP_eq BRKeccak256 hMemory
      (stored_canonicalHeader fields ending hMemory) with
    ⟨item, coder, hReads, hDecode⟩
  rw [hDecode]
  rw [canonicalHeader_eq] at hReads
  cases ending with
  | bare =>
      dsimp only
      unfold endLeaves at hReads
      rw [List.append_nil] at hReads
      rw [decodeItem_bare hReads]
      cases copyExtraData fields.extraData <;> rfl
  | mixed mixHash nonce =>
      rw [decodeItem_mixed hReads]
      rfl
  | seeded seedHash mixHash nonce =>
      dsimp only
      rw [decodeItem_seeded hReads (nonce_read nonce)]
      cases copyExtraData fields.extraData <;> rfl

/- Short extra data leave room for every header. -/
theorem memory_canonicalHeader
    {fields : HeaderFields}
    (hExtra : fields.extraData.length < 2 ^ 20)
    (ending : HeaderEnd) :
    (encoding (canonicalHeader fields ending)).length <
      2 ^ 64 := by
  have hEnd := length_endLeaf_lt ending
  have hStored :
      Stored
        (.node
          ((fieldLeaves fields true ++ endLeaves ending).map
            .leaf)) := by
    apply stored_leaves
    · rw [List.length_append]
      have hFields : (fieldLeaves fields true).length = 13 := rfl
      omega
    · intro bytes hBytes
      rcases List.mem_append.mp hBytes with hFirst | hLast
      · exact length_leaf_le hExtra true bytes hFirst
      · exact hEnd.2 bytes hLast
  rw [canonicalHeader_eq]
  rw [Stored] at hStored
  exact hStored.2.1

/- Leaves with the same encoding are the same. -/
theorem leaves_of_encoding
    {leaves others : List (List UInt8)}
    (hStored : Stored (.node (leaves.map .leaf)))
    (hOther : Stored (.node (others.map .leaf)))
    (hSame :
      encoding (.node (leaves.map .leaf)) =
        encoding (.node (others.map .leaf))) :
    leaves = others := by
  have hMemory := hStored
  rw [Stored] at hMemory
  have hTrees :=
    encoding_injective hMemory.2.1 hStored hOther hSame
  rw [RlpTree.node.injEq] at hTrees
  apply List.map_injective_iff.mpr _ hTrees
  intro left right hLeaf
  cases hLeaf
  rfl

/- What is written of a header that was read. -/
theorem encode_headerOf_iff
    {fields : HeaderFields}
    (hExtra : fields.extraData.length ≤ 32)
    (ending : HeaderEnd)
    {extraData : List.Vector UInt8 32}
    (hKept :
      extraData.toList.take fields.extraData.length =
        fields.extraData)
    (data : List UInt8)
    (seedHash mixHash : BREthereumHash)
    (nonce : UInt64) :
    blockHeaderEncodeRLP
          (withHash BRKeccak256 data
            (headerOf fields extraData seedHash mixHash nonce))
          true =
        some (encoding (canonicalHeader fields ending)) ↔
      fieldLeaves fields false ++
          [seedHash.toList, mixHash.toList,
            uint64Bytes nonce false] =
        fieldLeaves fields true ++ endLeaves ending := by
  have hHeader :=
    headerLeaves_withHash BRKeccak256 data
      (headerOf fields extraData seedHash mixHash nonce)
  have hCount :
      (withHash BRKeccak256 data
          (headerOf fields extraData seedHash mixHash
            nonce)).extraDataCount.toNat ≤
        32 := by
    rw [hHeader.2]
    unfold headerOf
    dsimp only
    rw [UInt8.toNat_ofNat', Nat.mod_eq_of_lt (by omega)]
    exact hExtra
  have hStored := stored_headerLeaves hCount
  have hRoom : 32 < 2 ^ 20 := by decide
  have hOther :=
    stored_canonicalHeader fields ending
      (memory_canonicalHeader (hExtra.trans_lt hRoom) ending)
  have hLeaves :
      headerLeaves
          (headerOf fields extraData seedHash mixHash nonce) =
        fieldLeaves fields false ++
          [seedHash.toList, mixHash.toList,
            uint64Bytes nonce false] := by
    unfold headerLeaves
    rw [fieldsOf_headerOf hExtra hKept]
    rfl
  rw [blockHeaderEncodeRLP_eq hCount, Option.some.injEq]
  rw [canonicalHeader_eq] at hOther ⊢
  rw [hHeader.1, hLeaves] at hStored ⊢
  constructor
  · exact leaves_of_encoding hStored hOther
  · intro hSame
    rw [hSame]

/-
  A canonical header comes back exactly when it has a seed hash
  and none of its numbers is zero or, in the case of the nonce,
  short.
-/
theorem header_canonical_iff
    {fields : HeaderFields}
    (hExtra : fields.extraData.length ≤ 32)
    (ending : HeaderEnd) :
    HeaderRoundTrips BRKeccak256 fields ending ↔
      Comparable fields ending := by
  have hRoom : 32 < 2 ^ 20 := by decide
  have hDecode :=
    decode_canonical BRKeccak256
      (memory_canonicalHeader (hExtra.trans_lt hRoom) ending)
  rcases copyExtraData_ok hExtra with ⟨extraData, hCopy, hKept⟩
  unfold HeaderRoundTrips Comparable
  rw [hDecode]
  cases ending with
  | bare =>
      dsimp only
      rw [hCopy]
      constructor
      · rintro ⟨header, hHeader, hEncode⟩
        cases hHeader
        rw [encode_headerOf_iff BRKeccak256 hExtra .bare hKept]
          at hEncode
        exact absurd (congrArg List.length hEncode)
          (by simp [fieldLeaves, endLeaves])
      · exact False.elim
  | mixed mixHash nonce =>
      dsimp only
      constructor
      · rintro ⟨header, hHeader, -⟩
        cases hHeader
      · exact False.elim
  | seeded seedHash mixHash nonce =>
      dsimp only
      rw [hCopy, ← fieldLeaves_forms_iff, ← nonce_written_iff]
      constructor
      · rintro ⟨header, hHeader, hEncode⟩
        cases hHeader
        rw [encode_headerOf_iff BRKeccak256 hExtra _ hKept]
          at hEncode
        have hParts := List.append_inj hEncode rfl
        simp only [endLeaves, List.cons.injEq, true_and,
          and_true] at hParts
        exact hParts
      · rintro ⟨hFields, hNonce⟩
        refine ⟨_, rfl, ?_⟩
        rw [encode_headerOf_iff BRKeccak256 hExtra _ hKept,
          hFields, hNonce]
        rfl

end Canonical

------------------------------------------------------------
-- Blocks
------------------------------------------------------------

section Law

variable (BRKeccak256 : List UInt8 → UInt256)
variable
  (BRKeyRecoverPubKey :
    UInt256 → List UInt8 → Option (List.Vector UInt8 64))

/- A block comes back with what it was created of. -/
def BlockRoundTrips
    (tokens : List BREthereumToken)
    (network : BREthereumNetwork)
    (header : BREthereumBlockHeader)
    (ommers : List BREthereumBlockHeader)
    (transactions : List BREthereumTransaction) : Prop :=
  ∃ data,
    blockEncodeRLP (createBlock header ommers transactions)
        network =
      some data ∧
    blockDecodeRLP BRKeccak256 BRKeyRecoverPubKey tokens network
        data =
      .ok
        { header := some header
          ommers := ommers
          transactions := transactions.map some }

/- A block that was created has no header to write. -/
theorem blockEncodeRLP_createBlock
    (network : BREthereumNetwork)
    (header : BREthereumBlockHeader)
    (ommers : List BREthereumBlockHeader)
    (transactions : List BREthereumTransaction) :
    blockEncodeRLP (createBlock header ommers transactions)
        network =
      none := by
  unfold blockEncodeRLP encodeRLP blockRlpEncodeItem createBlock
  rfl

/- Extra data are written past their array. -/
theorem overrun_iff
    {fields : HeaderFields}
    {ending : HeaderEnd}
    (hMemory :
      (encoding (canonicalHeader fields ending)).length <
        2 ^ 64) :
    blockHeaderDecodeRLP BRKeccak256
          (encoding (canonicalHeader fields ending)) =
        .error .overrun ↔
      32 < fields.extraData.length ∧
        ∀ mixHash nonce, ending ≠ .mixed mixHash nonce := by
  rw [decode_canonical BRKeccak256 hMemory]
  by_cases hExtra : fields.extraData.length ≤ 32
  · rcases copyExtraData_ok hExtra with ⟨extraData, hCopy, -⟩
    constructor
    · intro hOverrun
      cases ending <;> simp [hCopy, Except.map] at hOverrun
    · intro hBoth
      exact absurd hBoth.1 (Nat.not_lt.mpr hExtra)
  · have hLong := Nat.not_le.mp hExtra
    have hCopy := copyExtraData_overrun hLong
    cases ending with
    | bare =>
        dsimp only
        rw [hCopy]
        exact ⟨fun _ => ⟨hLong, nofun⟩, fun _ => rfl⟩
    | mixed mixHash nonce =>
        constructor
        · nofun
        · intro hBoth
          exact absurd rfl (hBoth.2 mixHash nonce)
    | seeded seedHash mixHash nonce =>
        dsimp only
        rw [hCopy]
        exact ⟨fun _ => ⟨hLong, nofun⟩, fun _ => rfl⟩

/-
  Which headers come back, that no block does, and for which
  headers the decoder writes past its array.
-/
theorem block_law
    (tokens : List BREthereumToken)
    (network : BREthereumNetwork)
    {fields : HeaderFields}
    {ending : HeaderEnd}
    (hMemory :
      (encoding (canonicalHeader fields ending)).length <
        2 ^ 64)
    (header : BREthereumBlockHeader)
    (ommers : List BREthereumBlockHeader)
    (transactions : List BREthereumTransaction) :
    (fields.extraData.length ≤ 32 →
        (HeaderRoundTrips BRKeccak256 fields ending ↔
          Comparable fields ending)) ∧
      ¬ BlockRoundTrips BRKeccak256 BRKeyRecoverPubKey tokens
        network header ommers transactions ∧
      (blockHeaderDecodeRLP BRKeccak256
            (encoding (canonicalHeader fields ending)) =
          .error .overrun ↔
        32 < fields.extraData.length ∧
          ∀ mixHash nonce, ending ≠ .mixed mixHash nonce) := by
  refine
    ⟨fun hExtra =>
      header_canonical_iff BRKeccak256 hExtra ending, ?_,
      overrun_iff BRKeccak256 hMemory⟩
  rintro ⟨data, hData, -⟩
  rw [blockEncodeRLP_createBlock] at hData
  cases hData

/- A header of which every number is one. -/
def someFields (extraData : List UInt8) : HeaderFields where
  parentHash := hashCreateEmpty
  ommersHash := hashCreateEmpty
  beneficiary := List.Vector.replicate 20 0
  stateRoot := hashCreateEmpty
  transactionsRoot := hashCreateEmpty
  receiptsRoot := hashCreateEmpty
  logsBloom := List.Vector.replicate 256 0
  difficulty := 1
  number := 1
  gasLimit := 1
  gasUsed := 1
  timestamp := 1
  extraData := extraData

def someNonce : List.Vector UInt8 8 := List.Vector.replicate 8 1

def someHeader : BREthereumBlockHeader :=
  headerOf (someFields []) hashCreateEmpty hashCreateEmpty
    hashCreateEmpty 1

theorem block_law_seeded :
    HeaderRoundTrips (fun _ => hashCreateEmpty) (someFields [])
        (.seeded hashCreateEmpty hashCreateEmpty someNonce) ∧
      ¬ BlockRoundTrips (fun _ => hashCreateEmpty)
        (fun _ _ => none) [] ⟨1, by decide⟩ someHeader [] [] := by
  have hMemory :=
    memory_canonicalHeader
      (show (someFields []).extraData.length < 2 ^ 20 from
        Nat.two_pow_pos 20)
      (.seeded hashCreateEmpty hashCreateEmpty someNonce)
  have hLaw :=
    block_law (fun _ => hashCreateEmpty) (fun _ _ => none) []
      ⟨1, by decide⟩ hMemory someHeader [] []
  refine ⟨(hLaw.1 (Nat.zero_le 32)).mpr ?_, hLaw.2.1⟩
  unfold Comparable NumbersNonzero
  decide

/- The fifteen fields, a block, and 33 bytes of extra data. -/
theorem fifteen_fields_refused :
    ¬ HeaderRoundTrips (fun _ => hashCreateEmpty)
        (someFields []) (.mixed hashCreateEmpty someNonce) ∧
      blockEncodeRLP (createBlock someHeader [] [])
          ⟨1, by decide⟩ =
        none ∧
      blockHeaderDecodeRLP (fun _ => hashCreateEmpty)
          (encoding
            (canonicalHeader
              (someFields (List.replicate 33 1))
              (.seeded hashCreateEmpty hashCreateEmpty
                someNonce))) =
        .error .overrun := by
  refine ⟨?_, blockEncodeRLP_createBlock _ _ _ _, ?_⟩
  · rw [header_canonical_iff]
    · exact id
    · exact Nat.zero_le 32
  · apply (overrun_iff _ (memory_canonicalHeader ?_ _)).mpr
    · exact ⟨by decide, nofun⟩
    · decide

end Law

end Ethereum

end PlusWallet
