import PlusWallet.Library.Positional
import PlusWallet.Rlp.RoundTrip

/-
  Records that are encoded as trees of items.

  Main declarations:
    * `Rlp.Reads`
    * `Rlp.encodeEach`, `Rlp.decodeEach`
    * `Rlp.encodeRLP`, `Rlp.decodeRLP`
    * `Rlp.natBytes`, `Rlp.uint64Bytes_eq_natBytes`
    * `Rlp.encodeRLP_eq_some_iff`
    * `Rlp.decodeRLP_encoding`
-/

namespace PlusWallet

namespace Rlp

open Bytes

------------------------------------------------------------
-- Encoders and Decoders
------------------------------------------------------------

/- An encoder of the items that a coder holds. -/
abbrev Encoder := BRRlpCoder → Option (BRRlpItem × BRRlpCoder)

/-
  The loop of an encoder over an array.  An array that the
  `int` index cannot count is refused by the list.
-/
def encodeEach
    {Record : Type}
    (encode : Record → Encoder) :
    List Record → BRRlpCoder →
      Option (List BRRlpItem × BRRlpCoder)
  | [], coder => some ([], coder)
  | record :: records, coder => do
      let (item, coder) ← encode record coder
      let (items, coder) ← encodeEach encode records coder
      some (item :: items, coder)

/- The loop of a decoder over the items of a list. -/
def decodeEach
    {Record : Type}
    (decode : BRRlpItem → BRRlpCoder → Option Record)
    (items : List BRRlpItem)
    (coder : BRRlpCoder) : Option (List Record) :=
  items.mapM fun item => decode item coder

/- The items of a list; there are none in any other item. -/
def decodeItems
    (coder : BRRlpCoder)
    (item : BRRlpItem) : Option (List BRRlpItem) := do
  let items ← rlpDecodeList coder item
  some (items.getD [])

/- Encode with a coder of its own. -/
def encodeRLP (encode : Encoder) : Option (List UInt8) := do
  let (item, coder) ← encode rlpCoderCreate
  rlpDataExtract coder item

/- Decode with a coder of its own. -/
def decodeRLP
    {Record : Type}
    (decode : BRRlpItem → BRRlpCoder → Option Record)
    (data : List UInt8) : Option Record := do
  let (item, coder) ← rlpGetItem rlpCoderCreate data
  decode item coder

/- Bytes of an array of a fixed size. -/
def fixedRlpEncode
    {size : Nat}
    (bytes : List.Vector UInt8 size) : Encoder := fun coder =>
  some (rlpEncodeItemBytes coder bytes.toList)

/- Bytes for an array of a fixed size, which is asserted. -/
def fixedRlpDecode
    (size : Nat)
    (item : BRRlpItem)
    (coder : BRRlpCoder) :
    Option (List.Vector UInt8 size) := do
  let data ← rlpDecodeItemBytes coder item
  if hSize : data.length = size then some ⟨data, hSize⟩
  else none

------------------------------------------------------------
-- Reading Items
------------------------------------------------------------

/- An item is read as a tree. -/
def Reads
    (coder : BRRlpCoder)
    (item : BRRlpItem)
    (tree : RlpTree) : Prop :=
  ∃ depth, decodeTreeR coder depth item = some tree

variable {coder : BRRlpCoder}
variable {item : BRRlpItem}

/- What a tree is read from. -/
theorem Reads.cases
    {tree : RlpTree}
    (hReads : Reads coder item tree) :
    (rlpDecodeList coder item = some none ∧
      ∃ bytes, tree = .leaf bytes ∧
        rlpDecodeItemBytes coder item = some bytes) ∨
    ∃ items trees,
      rlpDecodeList coder item = some (some items) ∧
        tree = .node trees ∧
        List.Forall₂ (Reads coder) items trees := by
  rcases hReads with ⟨depth, hDecode⟩
  cases depth with
  | zero =>
      unfold decodeTreeR at hDecode
      cases hDecode
  | succ depth =>
      unfold decodeTreeR at hDecode
      rw [Option.bind_eq_bind, Option.bind_eq_some_iff]
        at hDecode
      rcases hDecode with ⟨found, hFound, hDecode⟩
      cases found with
      | none =>
          dsimp only at hDecode
          rw [Option.bind_eq_bind, Option.bind_eq_some_iff]
            at hDecode
          rcases hDecode with ⟨bytes, hBytes, hTree⟩
          exact
            Or.inl
              ⟨hFound, bytes, (Option.some.inj hTree).symm,
                hBytes⟩
      | some items =>
          dsimp only at hDecode
          rw [Option.bind_eq_bind, Option.bind_eq_some_iff]
            at hDecode
          rcases hDecode with ⟨trees, hTrees, hTree⟩
          refine
            Or.inr
              ⟨items, trees, hFound,
                (Option.some.inj hTree).symm, ?_⟩
          apply (MapM.eq_some_iff.mp hTrees).imp
          intro item tree hItem
          exact ⟨depth, hItem⟩

theorem Reads.node
    {trees : List RlpTree}
    (hReads : Reads coder item (.node trees)) :
    ∃ items,
      decodeItems coder item = some items ∧
        List.Forall₂ (Reads coder) items trees := by
  rcases hReads.cases with
    ⟨-, bytes, hEqual, -⟩ | ⟨items, trees, hList, hEqual, hAll⟩
  · cases hEqual
  · cases hEqual
    refine ⟨items, ?_, hAll⟩
    unfold decodeItems
    rw [hList]
    rfl

theorem Reads.leaf
    {bytes : List UInt8}
    (hReads : Reads coder item (.leaf bytes)) :
    rlpDecodeList coder item = some none ∧
      rlpDecodeItemBytes coder item = some bytes := by
  rcases hReads.cases with
    ⟨hList, found, hEqual, hBytes⟩ | ⟨_, _, -, hEqual, -⟩
  · cases hEqual
    exact ⟨hList, hBytes⟩
  · cases hEqual

/- A leaf has no items. -/
theorem Reads.items_of_leaf
    {bytes : List UInt8}
    (hReads : Reads coder item (.leaf bytes)) :
    decodeItems coder item = some [] := by
  unfold decodeItems
  rw [hReads.leaf.1]
  rfl

theorem Reads.fixed
    {size : Nat}
    {bytes : List.Vector UInt8 size}
    (hReads : Reads coder item (.leaf bytes.toList)) :
    fixedRlpDecode size item coder = some bytes := by
  unfold fixedRlpDecode
  rw [hReads.leaf.2]
  exact dif_pos bytes.toList_length

/- The records that are decoded of the items of a list. -/
theorem decodeEach_eq
    {Record Result : Type}
    {decode : BRRlpItem → BRRlpCoder → Option Result}
    {tree : Record → RlpTree}
    {result : Record → Result}
    {records : List Record}
    {items : List BRRlpItem}
    (hDecode :
      ∀ record ∈ records, ∀ item,
        Reads coder item (tree record) →
          decode item coder = some (result record))
    (hReads :
      List.Forall₂ (Reads coder) items (records.map tree)) :
    decodeEach decode items coder =
      some (records.map result) := by
  unfold decodeEach
  rw [MapM.eq_some_iff]
  induction records generalizing items with
  | nil =>
      cases hReads
      exact List.Forall₂.nil
  | cons record records ih =>
      rw [List.map_cons] at hReads
      rw [List.forall_mem_cons] at hDecode
      cases hReads with
      | cons hFirst hRest =>
          exact
            List.Forall₂.cons (hDecode.1 _ hFirst)
              (ih hDecode.2 hRest)

------------------------------------------------------------
-- Reading Numbers
------------------------------------------------------------

/- The number of the bytes of a leaf. -/
theorem Reads.number
    {bytes : List UInt8}
    {context : BRRlpContext}
    (hReads : Reads coder item (.leaf bytes))
    (hContext : coderLookupContext coder item = some context)
    (targetCount : Nat) :
    coderDecodeNumber targetCount context.bytes =
      convertFromBigEndian targetCount bytes := by
  have hBytes := hReads.leaf.2
  unfold rlpDecodeItemBytes at hBytes
  simp only [hContext, Option.bind_eq_bind, Option.bind_some,
    Option.bind_eq_some_iff] at hBytes
  rcases hBytes with ⟨⟨length, offset⟩, hLength, hSlice⟩
  unfold coderDecodeNumber
  dsimp only at hSlice
  simp only [hLength, Option.bind_eq_bind, Option.bind_some,
    hSlice]

/- A slice of a single byte behind the first one is empty. -/
theorem slice_single
    {byte : UInt8}
    {offset length : Nat}
    {bytes : List UInt8}
    (hOffset : 0 < offset)
    (hSlice : slice [byte] offset length = some bytes) :
    bytes = [] := by
  unfold slice at hSlice
  split_ifs at hSlice with hFits
  rw [List.length_singleton] at hFits
  have hLength : length = 0 := by omega
  cases hSlice
  rw [hLength, List.take_zero]

/- Only a leaf without bytes passes the test. -/
theorem Reads.bytes_of_isEmptyString
    {bytes : List UInt8}
    (hReads : Reads coder item (.leaf bytes))
    (hEmpty : rlpDecodeItemIsEmptyString coder item = some true) :
    bytes = [] := by
  have hBytes := hReads.leaf.2
  unfold rlpDecodeItemIsEmptyString at hEmpty
  unfold rlpDecodeItemBytes at hBytes
  rw [Option.bind_eq_bind, Option.bind_eq_some_iff] at hEmpty
  rcases hEmpty with ⟨context, hContext, hEmpty⟩
  simp only [hContext, Option.bind_eq_bind, Option.bind_some,
    Option.bind_eq_some_iff] at hBytes
  rcases hBytes with ⟨⟨length, offset⟩, hLength, hSlice⟩
  have hTest := of_decide_eq_true (Option.some.inj hEmpty)
  rcases hTest with ⟨-, hSingle, hPrefix⟩
  rcases List.length_eq_one_iff.mp hSingle with ⟨byte, hByte⟩
  rw [hByte] at hLength hSlice hPrefix
  have hFirst : RLP_PREFIX_BYTES ≤ byte.toNat := hPrefix
  unfold coderDecodeLength at hLength
  dsimp only at hLength
  rw [if_neg (not_lt.mpr hFirst)] at hLength
  apply slice_single ?_ hSlice
  by_cases hShort :
      byte.toNat - RLP_PREFIX_BYTES ≤ RLP_PREFIX_LENGTH_LIMIT
  · rw [if_pos hShort] at hLength
    have hSame := Prod.mk.inj (Option.some.inj hLength)
    rw [← hSame.2]
    exact Nat.one_pos
  · rw [if_neg hShort] at hLength
    simp only [Option.bind_eq_bind, Option.bind_eq_some_iff]
      at hLength
    rcases hLength with ⟨_, -, _, -, hEqual⟩
    have hSame := Prod.mk.inj (Option.some.inj hEqual)
    rw [← hSame.2]
    omega

theorem Reads.context
    {bytes : List UInt8}
    (hReads : Reads coder item (.leaf bytes)) :
    ∃ context,
      coderLookupContext coder item = some context := by
  have hBytes := hReads.leaf.2
  unfold rlpDecodeItemBytes at hBytes
  rw [Option.bind_eq_bind, Option.bind_eq_some_iff] at hBytes
  rcases hBytes with ⟨context, hContext, -⟩
  exact ⟨context, hContext⟩

theorem convertFromBigEndian_nil
    (targetCount : Nat) :
    convertFromBigEndian targetCount [] =
      some (List.replicate targetCount 0) := by
  simp [convertFromBigEndian]

/- An empty string is the number zero either way. -/
theorem Reads.uint64
    {bytes : List UInt8}
    (hReads : Reads coder item (.leaf bytes))
    (zeroAsEmptyString : Bool) :
    rlpDecodeItemUInt64 coder item zeroAsEmptyString =
      (convertFromBigEndian 8 bytes).map fun number =>
        UInt64.ofNat (ofLittleEndian number) := by
  rcases hReads.context with ⟨context, hContext⟩
  have hEmpty := hReads.bytes_of_isEmptyString
  unfold rlpDecodeItemUInt64
  rw [rlpDecodeItemIsEmptyString, hContext] at hEmpty ⊢
  simp only [Option.bind_eq_bind, Option.bind_some,
    Option.some.injEq, hReads.number hContext] at hEmpty ⊢
  split_ifs with hZero
  · rw [hEmpty hZero.2, convertFromBigEndian_nil]
    rfl
  · cases convertFromBigEndian 8 bytes <;> rfl

theorem Reads.uint256
    {bytes : List UInt8}
    (hReads : Reads coder item (.leaf bytes))
    (zeroAsEmptyString : Bool) :
    rlpDecodeItemUInt256 coder item zeroAsEmptyString =
      (convertFromBigEndian 32 bytes).map hashOfBytes := by
  rcases hReads.context with ⟨context, hContext⟩
  have hEmpty := hReads.bytes_of_isEmptyString
  unfold rlpDecodeItemUInt256
  rw [rlpDecodeItemIsEmptyString, hContext] at hEmpty ⊢
  simp only [Option.bind_eq_bind, Option.bind_some,
    Option.some.injEq, hReads.number hContext] at hEmpty ⊢
  split_ifs with hZero
  · rw [hEmpty hZero.2, convertFromBigEndian_nil]
    decide +kernel
  · cases convertFromBigEndian 32 bytes <;> rfl

------------------------------------------------------------
-- Writing Items
------------------------------------------------------------

/- The bytes of a number, or of zero as an empty string. -/
def uint64Bytes
    (value : UInt64)
    (zeroAsEmptyString : Bool) : List UInt8 :=
  if zeroAsEmptyString ∧ value = 0 then []
  else
    convertToBigEndianAndNormalize
      (littleEndian 8 value.toNat)

def uint256Bytes
    (value : UInt256)
    (zeroAsEmptyString : Bool) : List UInt8 :=
  if zeroAsEmptyString ∧ value = 0 then []
  else convertToBigEndianAndNormalize value.toList

theorem encodeUInt64_eq
    (coder : BRRlpCoder)
    (value : UInt64)
    (zeroAsEmptyString : Bool) :
    rlpEncodeItemUInt64 coder value zeroAsEmptyString =
      rlpEncodeItemBytes coder
        (uint64Bytes value zeroAsEmptyString) := by
  unfold rlpEncodeItemUInt64 uint64Bytes
  split_ifs <;> rfl

theorem encodeUInt256_eq
    (coder : BRRlpCoder)
    (value : UInt256)
    (zeroAsEmptyString : Bool) :
    rlpEncodeItemUInt256 coder value zeroAsEmptyString =
      rlpEncodeItemBytes coder
        (uint256Bytes value zeroAsEmptyString) := by
  unfold rlpEncodeItemUInt256 uint256Bytes
  split_ifs <;> rfl

theorem fixedRlpEncode_eq
    {size : Nat}
    (bytes : List.Vector UInt8 size)
    (coder : BRRlpCoder) :
    fixedRlpEncode bytes coder =
      encodeTree coder (.leaf bytes.toList) := by
  unfold fixedRlpEncode encodeTree
  rfl

theorem encodeEach_eq
    {Record : Type}
    {encode : Record → Encoder}
    {tree : Record → RlpTree}
    (hEncode :
      ∀ record coder,
        encode record coder = encodeTree coder (tree record))
    (records : List Record)
    (coder : BRRlpCoder) :
    encodeEach encode records coder =
      encodeTrees coder (records.map tree) := by
  induction records generalizing coder with
  | nil => rw [encodeEach, List.map_nil, encodeTrees]
  | cons record records ih =>
      rw [encodeEach, List.map_cons, encodeTrees, hEncode]
      simp only [ih]

/- The number behind its bytes. -/
theorem uint64_of_bytes
    (value : UInt64)
    (zeroAsEmptyString : Bool) :
    ((convertFromBigEndian 8
          (uint64Bytes value zeroAsEmptyString)).map
        fun number => UInt64.ofNat (ofLittleEndian number)) =
      some value := by
  unfold uint64Bytes
  split_ifs with hZero
  · rw [convertFromBigEndian_nil, hZero.2]
    rfl
  · have hBack :=
      convertFromBigEndian_normalize
        (littleEndian_ne_nil value.toNat)
    rw [length_littleEndian] at hBack
    rw [hBack, Option.map_some,
      ofLittleEndian_littleEndian 8
        (by simpa using value.toNat_lt),
      UInt64.ofNat_toNat]

theorem uint256_of_bytes
    (value : UInt256)
    (zeroAsEmptyString : Bool) :
    (convertFromBigEndian 32
          (uint256Bytes value zeroAsEmptyString)).map
        hashOfBytes =
      some value := by
  unfold uint256Bytes
  split_ifs with hZero
  · rw [convertFromBigEndian_nil, hZero.2]
    decide +kernel
  · have hLength : value.toList.length = 32 :=
      value.toList_length
    have hSource : value.toList ≠ [] := by
      rw [← List.length_pos_iff, hLength]
      decide
    have hBack := convertFromBigEndian_normalize hSource
    rw [hLength] at hBack
    rw [hBack, Option.map_some, hashOfBytes_toList]

theorem Reads.uint64Bytes
    {value : UInt64}
    {asWritten : Bool}
    (hReads :
      Reads coder item (.leaf (uint64Bytes value asWritten)))
    (asRead : Bool) :
    rlpDecodeItemUInt64 coder item asRead = some value := by
  rw [hReads.uint64, uint64_of_bytes]

theorem Reads.uint256Bytes
    {value : UInt256}
    {asWritten : Bool}
    (hReads :
      Reads coder item (.leaf (uint256Bytes value asWritten)))
    (asRead : Bool) :
    rlpDecodeItemUInt256 coder item asRead = some value := by
  rw [hReads.uint256, uint256_of_bytes]

------------------------------------------------------------
-- Canonical Numbers
------------------------------------------------------------

/- The bytes of a number, with no zero byte in front. -/
def natBytes (number : Nat) : List UInt8 :=
  (Positional.digitsOf 256 number).map UInt8.ofNat

theorem value_bytes (bytes : List UInt8) :
    Positional.value 256 (bytes.map UInt8.toNat) =
      ofBigEndian bytes := by
  unfold Positional.value ofBigEndian
  rw [← List.map_reverse]
  generalize bytes.reverse = bytes
  induction bytes with
  | nil => rfl
  | cons byte bytes ih =>
      rw [List.map_cons, Nat.ofDigits_cons, ih, ofLittleEndian]

/- The bytes of a number written with zeros in front. -/
theorem natBytes_ofBigEndian (bytes : List UInt8) :
    natBytes (ofBigEndian bytes) =
      bytes.dropWhile (· = 0) := by
  have hDigits :
      ∀ digit ∈ bytes.map UInt8.toNat, digit < 256 := by
    intro digit hDigit
    rcases List.mem_map.mp hDigit with ⟨byte, -, rfl⟩
    exact byte.toNat_lt
  have hZero :
      ((· == 0) ∘ UInt8.toNat : UInt8 → Bool) =
        fun byte => decide (byte = 0) := by
    funext byte
    rw [Function.comp_apply, Bool.eq_iff_iff, beq_iff_eq,
      decide_eq_true_eq, ← UInt8.toNat_inj]
    rfl
  unfold natBytes
  rw [← value_bytes,
    Positional.digitsOf_value (by decide) hDigits,
    Positional.significant, List.dropWhile_map, hZero,
    List.map_map]
  have hBack : UInt8.ofNat ∘ UInt8.toNat = id := by
    funext byte
    exact UInt8.ofNat_toNat
  rw [hBack, List.map_id]

/- Bytes are canonical if they begin with another byte than 0. -/
theorem natBytes_ofBigEndian_eq_iff
    {size : Nat}
    (bytes : List.Vector UInt8 (size + 1)) :
    natBytes (ofBigEndian bytes.toList) = bytes.toList ↔
      bytes.head ≠ 0 := by
  rcases bytes with ⟨_ | ⟨first, rest⟩, hLength⟩
  · cases hLength
  · change
      natBytes (ofBigEndian (first :: rest)) = first :: rest ↔
        first ≠ 0
    rw [natBytes_ofBigEndian]
    constructor
    · intro hKept hZero
      have hShorter := List.length_dropWhile_le (· = 0) rest
      rw [List.dropWhile_cons_of_pos (by simpa using hZero)]
        at hKept
      rw [hKept, List.length_cons] at hShorter
      omega
    · intro hFirst
      rw [List.dropWhile_cons_of_neg (by simpa using hFirst)]

theorem natBytes_zero : natBytes 0 = [] := by
  decide

theorem natBytes_ne_nil
    {number : Nat}
    (hNumber : number ≠ 0) :
    natBytes number ≠ [] := by
  intro hNone
  unfold natBytes at hNone
  rw [List.map_eq_nil_iff] at hNone
  have hValue := Positional.value_digitsOf 256 number
  rw [hNone] at hValue
  exact hNumber hValue.symm

/- The coder writes the canonical bytes of a number. -/
theorem normalize_eq_natBytes
    {source : List UInt8}
    (hNumber : ofLittleEndian source ≠ 0) :
    convertToBigEndianAndNormalize source =
      natBytes (ofLittleEndian source) := by
  have hKept := natBytes_ne_nil hNumber
  have hBytes := natBytes_ofBigEndian source.reverse
  unfold ofBigEndian at hBytes
  rw [List.reverse_reverse] at hBytes
  have hDrop :
      source.reverse.drop (findNonZeroIndex source.reverse) =
        source.reverse.dropWhile (· = 0) := by
    rw [List.dropWhile_eq_drop_findIdx_not]
    unfold findNonZeroIndex
    congr 2
    funext byte
    simp
  unfold convertToBigEndianAndNormalize
  dsimp only
  rw [← List.length_drop, hDrop, ← hBytes,
    if_neg
      (fun hNone => hKept (List.length_eq_zero_iff.mp hNone))]

theorem uint64Bytes_eq_natBytes (value : UInt64) :
    uint64Bytes value true = natBytes value.toNat := by
  have hValue :
      ofLittleEndian (littleEndian 8 value.toNat) =
        value.toNat :=
    ofLittleEndian_littleEndian 8 (by simpa using value.toNat_lt)
  unfold uint64Bytes
  by_cases hZero : value = 0
  · rw [if_pos ⟨rfl, hZero⟩, hZero]
    exact natBytes_zero.symm
  · rw [if_neg (fun hBoth => hZero hBoth.2),
      normalize_eq_natBytes, hValue]
    rw [hValue]
    intro hNumber
    apply hZero
    rw [← UInt64.toNat_inj, hNumber]
    rfl

theorem eq_replicate_of_ofLittleEndian
    {bytes : List UInt8}
    (hZero : ofLittleEndian bytes = 0) :
    bytes = List.replicate bytes.length 0 := by
  induction bytes with
  | nil => rfl
  | cons byte bytes ih =>
      rw [ofLittleEndian] at hZero
      have hByte : byte = 0 := by
        rw [← UInt8.toNat_inj]
        have hSmall : byte.toNat = 0 := by omega
        rw [hSmall]
        rfl
      rw [List.length_cons, List.replicate_succ, hByte,
        ← ih (by omega)]

theorem uint256Bytes_eq_natBytes (value : UInt256) :
    uint256Bytes value true =
      natBytes (ofLittleEndian value.toList) := by
  unfold uint256Bytes
  by_cases hZero : value = 0
  · rw [if_pos ⟨rfl, hZero⟩, hZero]
    decide +kernel
  · rw [if_neg (fun hBoth => hZero hBoth.2),
      normalize_eq_natBytes]
    intro hNumber
    have hBytes := eq_replicate_of_ofLittleEndian hNumber
    rw [List.Vector.toList_length] at hBytes
    apply hZero
    apply List.Vector.eq
    rw [hBytes]
    rfl

------------------------------------------------------------
-- Sizes
------------------------------------------------------------

theorem lengthSize_le
    {length : Nat}
    (hLength : length < 2 ^ 64) :
    lengthSize length ≤ 9 := by
  rw [← length_encodeLength hLength RLP_PREFIX_BYTES]
  exact length_encodeLength_le length RLP_PREFIX_BYTES

theorem encodedSize_leaf_le
    {bytes : List UInt8}
    (hLength : bytes.length < 2 ^ 64) :
    encodedSize (.leaf bytes) ≤ 9 + bytes.length := by
  have hSize := lengthSize_le hLength
  rw [encodedSize]
  split_ifs with hSingle
  · omega
  · omega

/- Few short byte strings fit into a list. -/
theorem stored_leaves
    {leaves : List (List UInt8)}
    (hCount : leaves.length < 2 ^ 20)
    (hShort : ∀ bytes ∈ leaves, bytes.length < 2 ^ 20) :
    Stored (.node (leaves.map .leaf)) := by
  have hSizes :
      AllFit (leaves.map .leaf) ∧
        encodedSizes (leaves.map .leaf) ≤
          leaves.length * 2 ^ 21 := by
    clear hCount
    induction leaves with
    | nil =>
        rw [List.map_nil, AllFit, encodedSizes]
        exact ⟨trivial, Nat.zero_le _⟩
    | cons bytes leaves ih =>
        rw [List.forall_mem_cons] at hShort
        rcases ih hShort.2 with ⟨hFit, hSize⟩
        have hLeaf :=
          encodedSize_leaf_le
            (show bytes.length < 2 ^ 64 by omega)
        rw [List.map_cons, AllFit, Fits, encodedSizes,
          List.length_cons]
        exact ⟨⟨trivial, hFit⟩, by omega⟩
  have hPayload :
      encodedSizes (leaves.map .leaf) < 2 ^ 64 := by
    omega
  have hLength := lengthSize_le hPayload
  rw [stored_iff, Fits, List.length_map, encodedSize]
  exact ⟨by omega, by omega, hSizes.1⟩

theorem length_uint64Bytes
    (value : UInt64)
    (zeroAsEmptyString : Bool) :
    (uint64Bytes value zeroAsEmptyString).length ≤ 8 := by
  have hLength :=
    (length_normalize (littleEndian_ne_nil value.toNat)).2
  rw [length_littleEndian] at hLength
  unfold uint64Bytes
  split_ifs
  · exact Nat.zero_le _
  · exact hLength

theorem length_uint256Bytes
    (value : UInt256)
    (zeroAsEmptyString : Bool) :
    (uint256Bytes value zeroAsEmptyString).length ≤ 32 := by
  have hCount : value.toList.length = 32 := value.toList_length
  have hLength :=
    (length_normalize
      (show value.toList ≠ [] by
        rw [← List.length_pos_iff, hCount]
        decide)).2
  rw [hCount] at hLength
  unfold uint256Bytes
  split_ifs
  · exact Nat.zero_le _
  · exact hLength

------------------------------------------------------------
-- Encodings of Records
------------------------------------------------------------

/- What an encoder of a tree gives. -/
theorem encodeRLP_eq_some_iff
    {encode : Encoder}
    {tree : RlpTree}
    (hEncode : ∀ coder, encode coder = encodeTree coder tree)
    (data : List UInt8) :
    encodeRLP encode = some data ↔
      Stored tree ∧ data = encoding tree := by
  unfold encodeRLP
  rw [hEncode]
  constructor
  · intro hData
    rw [Option.bind_eq_bind, Option.bind_eq_some_iff] at hData
    rcases hData with ⟨⟨item, written⟩, hTree, hData⟩
    rcases encodeTree_spec tree _ hTree with
      ⟨hStored, -, hBytes⟩
    dsimp only at hData
    rw [dataExtract_of_hasBytes hBytes] at hData
    exact ⟨hStored, (Option.some.inj hData).symm⟩
  · rintro ⟨hStored, rfl⟩
    rcases encodeTree_of_stored tree rlpCoderCreate hStored with
      ⟨item, written, hTree⟩
    rw [hTree]
    exact
      dataExtract_of_hasBytes (encodeTree_spec tree _ hTree).2.2

/- Trees of the same bytes are the same. -/
theorem encoding_injective
    {tree other : RlpTree}
    (hMemory : (encoding tree).length < 2 ^ 64)
    (hStored : Stored tree)
    (hOther : Stored other)
    (hSame : encoding tree = encoding other) :
    tree = other := by
  rcases getItem_encoding hMemory hStored rlpCoderCreate with
    ⟨read, final, hRead, hTree⟩
  rw [hSame] at hMemory hRead
  rcases getItem_encoding hMemory hOther rlpCoderCreate with
    ⟨otherRead, otherFinal, hOtherRead, hOtherTree⟩
  rw [hRead] at hOtherRead
  cases hOtherRead
  rw [hTree] at hOtherTree
  exact Option.some.inj hOtherTree

/- What a decoder is given of the bytes of a tree. -/
theorem decodeRLP_encoding
    {tree : RlpTree}
    (hMemory : (encoding tree).length < 2 ^ 64)
    (hStored : Stored tree) :
    ∃ item coder,
      Reads coder item tree ∧
        ∀ {Record : Type}
          (decode : BRRlpItem → BRRlpCoder → Option Record),
          decodeRLP decode (encoding tree) =
            decode item coder := by
  rcases getItem_encoding hMemory hStored rlpCoderCreate with
    ⟨item, coder, hRead, hTree⟩
  refine ⟨item, coder, ⟨_, hTree⟩, ?_⟩
  intro Record decode
  unfold decodeRLP
  rw [hRead]
  rfl

end Rlp

end PlusWallet
