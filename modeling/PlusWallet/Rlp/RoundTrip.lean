import PlusWallet.Library.MapM
import PlusWallet.Rlp.BRRlpCoder

/-
  Encoding a nested tree of byte strings and reading it back.

  Main declarations:
    * `RlpTree`
    * `Rlp.encodeTree`, `Rlp.decodeTree`
    * `Rlp.Fits`
    * `Rlp.roundTrip_iff`
-/

namespace PlusWallet

open Bytes

------------------------------------------------------------
-- Trees
------------------------------------------------------------

/- A byte string, or a list of trees. -/
inductive RlpTree where
  | leaf (bytes : List UInt8)
  | node (trees : List RlpTree)

namespace Rlp

mutual
/- Encode a tree, its sub-trees first. -/
def encodeTree :
    BRRlpCoder → RlpTree → Option (BRRlpItem × BRRlpCoder)
  | coder, .leaf bytes => some (rlpEncodeItemBytes coder bytes)
  | coder, .node trees => do
      let (items, coder) ← encodeTrees coder trees
      rlpEncodeListItems coder items

def encodeTrees :
    BRRlpCoder → List RlpTree →
      Option (List BRRlpItem × BRRlpCoder)
  | coder, [] => some ([], coder)
  | coder, tree :: trees => do
      let (item, coder) ← encodeTree coder tree
      let (items, coder) ← encodeTrees coder trees
      some (item :: items, coder)
end

/- Take an item apart, down to a bound on the depth. -/
def decodeTreeR
    (coder : BRRlpCoder) : Nat → BRRlpItem → Option RlpTree
  | 0, _ => none
  | depth + 1, item => do
      match ← rlpDecodeList coder item with
      | none =>
          let bytes ← rlpDecodeItemBytes coder item
          some (.leaf bytes)
      | some items =>
          let trees ← items.mapM (decodeTreeR coder depth)
          some (.node trees)

/- Items of a list come before it, which bounds the depth. -/
def decodeTree
    (coder : BRRlpCoder)
    (item : BRRlpItem) : Option RlpTree :=
  decodeTreeR coder (item + 1) item

/- The bytes of a tree come back as the same tree. -/
def RoundTrips (tree : RlpTree) : Prop :=
  ∀ coder reader, ∃ item written data read final,
    encodeTree coder tree = some (item, written) ∧
      rlpDataExtract written item = some data ∧
      rlpGetItem reader data = some (read, final) ∧
      decodeTree final read = some tree

------------------------------------------------------------
-- Encodings
------------------------------------------------------------

mutual
/- The bytes of a tree. -/
def encoding : RlpTree → List UInt8
  | .leaf bytes => coderEncodeBytes bytes
  | .node trees =>
      coderEncodeLength (encodings trees).length
          RLP_PREFIX_LIST ++
        encodings trees

def encodings : List RlpTree → List UInt8
  | [] => []
  | tree :: trees => encoding tree ++ encodings trees
end

mutual
/- All byte strings are shorter than `2 ^ 32`. -/
def ShortLeaves : RlpTree → Prop
  | .leaf bytes => bytes.length < 2 ^ 32
  | .node trees => AllShort trees

def AllShort : List RlpTree → Prop
  | [] => True
  | tree :: trees => ShortLeaves tree ∧ AllShort trees
end

/- The number of bytes of an encoded length. -/
def lengthSize (length : Nat) : Nat :=
  if length ≤ RLP_PREFIX_LENGTH_LIMIT then 1
  else 1 + (Nat.digits 256 length).length

mutual
/- The number of bytes of a tree. -/
def encodedSize : RlpTree → Nat
  | .leaf bytes =>
      if bytes.length = 1 ∧
          (bytes.headD 0).toNat < RLP_PREFIX_BYTES then 1
      else lengthSize bytes.length + bytes.length
  | .node trees =>
      lengthSize (encodedSizes trees) + encodedSizes trees

def encodedSizes : List RlpTree → Nat
  | [] => 0
  | tree :: trees => encodedSize tree + encodedSizes trees
end

mutual
/-
  Every list has fewer than `2 ^ 31` items, and memory has
  room for the bytes of every list.
-/
def Fits : RlpTree → Prop
  | .leaf _ => True
  | .node trees =>
      trees.length < 2 ^ 31 ∧
        encodedSize (.node trees) < 2 ^ 64 ∧
        AllFit trees

def AllFit : List RlpTree → Prop
  | [] => True
  | tree :: trees => Fits tree ∧ AllFit trees
end

mutual
/- The same of the bytes themselves. -/
def Stored : RlpTree → Prop
  | .leaf _ => True
  | .node trees =>
      trees.length < 2 ^ 31 ∧
        (encoding (.node trees)).length < 2 ^ 64 ∧
        AllStored trees

def AllStored : List RlpTree → Prop
  | [] => True
  | tree :: trees => Stored tree ∧ AllStored trees
end

------------------------------------------------------------
-- Numbers
------------------------------------------------------------

/- Zero bytes in front come back. -/
theorem convertFromBigEndian_normalize
    {source : List UInt8}
    (hSource : source ≠ []) :
    convertFromBigEndian source.length
        (convertToBigEndianAndNormalize source) =
      some source := by
  have hPositive : 0 < source.length :=
    List.length_pos_iff.mpr hSource
  have hZeros :
      ∀ target : List UInt8,
        target.take (findNonZeroIndex target) =
          List.replicate (findNonZeroIndex target) 0 := by
    intro target
    have hIndex : findNonZeroIndex target ≤ target.length :=
      List.findIdx_le_length
    rw [List.eq_replicate_iff]
    refine ⟨by rw [List.length_take, min_eq_left hIndex], ?_⟩
    intro byte hByte
    rcases List.mem_take_iff_getElem.mp hByte with
      ⟨i, hi, rfl⟩
    have hBefore : i < findNonZeroIndex target := by omega
    simpa using List.not_of_lt_findIdx hBefore
  have hTarget := hZeros source.reverse
  have hIndex :
      findNonZeroIndex source.reverse ≤
        source.reverse.length :=
    List.findIdx_le_length
  have hLength : source.reverse.length = source.length :=
    List.length_reverse
  rw [convertToBigEndianAndNormalize]
  split_ifs with hAll
  · -- all bytes are zero, and one of them is kept
    have hSame :
        findNonZeroIndex source.reverse = source.length := by
      omega
    rw [hSame, ← hLength, List.take_length, hLength] at hTarget
    rw [convertFromBigEndian, if_pos (by simp), hTarget]
    simp only [List.take_replicate, List.length_replicate,
      min_eq_left (Nat.succ_le_of_lt hPositive),
      ← List.replicate_add, Nat.sub_add_cancel hPositive]
    rw [← hTarget, List.reverse_reverse]
  · rw [convertFromBigEndian,
      if_pos (by rw [List.length_drop]; omega),
      List.length_drop, hLength]
    have hFront :
        source.length -
            (source.length -
              findNonZeroIndex source.reverse) =
          findNonZeroIndex source.reverse := by
      omega
    rw [hFront, ← hTarget, List.take_append_drop,
      List.reverse_reverse]

theorem length_normalize
    {source : List UInt8}
    (hSource : source ≠ []) :
    0 < (convertToBigEndianAndNormalize source).length ∧
      (convertToBigEndianAndNormalize source).length ≤
        source.length := by
  have hPositive : 0 < source.length :=
    List.length_pos_iff.mpr hSource
  rw [convertToBigEndianAndNormalize]
  split_ifs with hAll
  · rw [List.length_take, List.length_reverse]
    omega
  · rw [List.length_drop]
    rw [List.length_reverse] at hAll ⊢
    omega

------------------------------------------------------------
-- Lengths
------------------------------------------------------------

/- The two baselines of a length. -/
def Baseline (baseline : Nat) : Prop :=
  baseline = RLP_PREFIX_BYTES ∨ baseline = RLP_PREFIX_LIST

theorem littleEndian_ne_nil (length : Nat) :
    littleEndian 8 length ≠ [] := by
  rw [← List.length_pos_iff, length_littleEndian]
  decide

/- The first byte tells the baseline. -/
theorem first_encodeLength
    {baseline : Nat}
    (hBaseline : Baseline baseline)
    (length : Nat) :
    ∃ first rest,
      coderEncodeLength length baseline = first :: rest ∧
        baseline ≤ first.toNat ∧ first.toNat < baseline + 64 := by
  have hBytes :=
    length_normalize (littleEndian_ne_nil length)
  rw [length_littleEndian] at hBytes
  have hLow : baseline ≤ RLP_PREFIX_LIST := by
    rcases hBaseline with rfl | rfl <;> decide
  rw [RLP_PREFIX_LIST] at hLow
  rw [coderEncodeLength]
  split_ifs with hShort
  · rw [RLP_PREFIX_LENGTH_LIMIT] at hShort
    refine ⟨_, _, rfl, ?_, ?_⟩ <;>
      rw [UInt8.toNat_ofNat'] <;> omega
  · refine ⟨_, _, rfl, ?_, ?_⟩ <;>
      rw [UInt8.toNat_ofNat', RLP_PREFIX_LENGTH_LIMIT] <;>
      omega

/- A length is read back in front of anything. -/
theorem decodeLength_encodeLength
    {baseline length : Nat}
    (hBaseline : Baseline baseline)
    (hLength : length < 2 ^ 64)
    (rest : List UInt8) :
    coderDecodeLength
        (coderEncodeLength length baseline ++ rest) baseline =
      some
        (length, (coderEncodeLength length baseline).length) := by
  have hSource := littleEndian_ne_nil length
  have hBytes := length_normalize hSource
  have hBack := convertFromBigEndian_normalize hSource
  rw [length_littleEndian] at hBytes hBack
  have hLow : baseline ≤ RLP_PREFIX_LIST := by
    rcases hBaseline with rfl | rfl <;> decide
  rw [RLP_PREFIX_LIST] at hLow
  rw [coderEncodeLength]
  split_ifs with hShort
  · rw [RLP_PREFIX_LENGTH_LIMIT] at hShort
    have hFirst :
        (UInt8.ofNat (baseline + length)).toNat =
          baseline + length := by
      rw [UInt8.toNat_ofNat']
      omega
    rw [List.singleton_append, coderDecodeLength, hFirst,
      if_neg (by omega),
      if_pos (by rw [RLP_PREFIX_LENGTH_LIMIT]; omega),
      Nat.add_sub_cancel_left]
    rfl
  · generalize
      convertToBigEndianAndNormalize (littleEndian 8 length) =
        bytes at hBytes hBack
    have hFirst :
        (UInt8.ofNat
            (baseline + RLP_PREFIX_LENGTH_LIMIT +
              bytes.length)).toNat =
          baseline + RLP_PREFIX_LENGTH_LIMIT +
            bytes.length := by
      rw [UInt8.toNat_ofNat', RLP_PREFIX_LENGTH_LIMIT]
      omega
    have hCount :
        baseline + RLP_PREFIX_LENGTH_LIMIT + bytes.length -
              baseline -
            RLP_PREFIX_LENGTH_LIMIT =
          bytes.length := by
      omega
    rw [List.cons_append, coderDecodeLength, hFirst,
      if_neg (by omega), if_neg (by omega)]
    simp only [hCount]
    rw [(Stands.whole (bytes ++ rest)).front.slice_eq]
    simp only [Option.bind_eq_bind, Option.bind_some, hBack]
    rw [ofLittleEndian_littleEndian 8 (by simpa using hLength),
      List.length_cons, Nat.add_comm]

theorem findNonZeroIndex_zeros
    {byte : UInt8}
    (hByte : byte ≠ 0)
    (zeros : Nat)
    (rest : List UInt8) :
    findNonZeroIndex (List.replicate zeros 0 ++ byte :: rest) =
      zeros := by
  induction zeros with
  | zero => simp [findNonZeroIndex, List.findIdx_cons, hByte]
  | succ zeros ih =>
      rw [findNonZeroIndex] at ih
      rw [List.replicate_succ, List.cons_append,
        findNonZeroIndex, List.findIdx_cons, ih]
      rfl

/- Big-endian digits without zeros in front. -/
theorem length_normalize_littleEndian
    (width : Nat)
    {number : Nat}
    (hFits : number < 256 ^ width)
    (hPositive : 0 < number) :
    (convertToBigEndianAndNormalize
        (littleEndian width number)).length =
      (Nat.digits 256 number).length := by
  have hDigits :
      Nat.digits 256 number ≠ [] :=
    Nat.digits_ne_nil_iff_ne_zero.mpr (by omega)
  have hLast : (Nat.digits 256 number).getLast hDigits ≠ 0 :=
    Nat.getLast_digit_ne_zero 256 (by omega)
  have hByte :
      ∀ digit ∈ Nat.digits 256 number, digit < 256 :=
    fun digit hDigit => Nat.digits_lt_base (by decide) hDigit
  rw [littleEndian_eq_digits width hFits,
    convertToBigEndianAndNormalize]
  generalize Nat.digits 256 number = digits
    at hDigits hLast hByte
  generalize width - digits.length = zeros
  have hIndex :
      findNonZeroIndex
          (digits.map UInt8.ofNat ++
            List.replicate zeros 0).reverse =
        zeros := by
    induction digits using List.reverseRecOn with
    | nil => exact absurd rfl hDigits
    | append_singleton front last _ =>
        rw [List.getLast_append_singleton] at hLast
        have hSmall := hByte last (by simp)
        have hNonZero : UInt8.ofNat last ≠ 0 := by
          intro hZero
          have hValue := congrArg UInt8.toNat hZero
          rw [UInt8.toNat_ofNat'] at hValue
          have hMod : last % 256 = 0 := hValue
          omega
        simp only [List.map_append, List.map_singleton,
          List.reverse_append, List.reverse_replicate,
          List.reverse_singleton, List.singleton_append]
        exact findNonZeroIndex_zeros hNonZero zeros _
  have hLength :
      (digits.map UInt8.ofNat ++
          List.replicate zeros 0).reverse.length =
        digits.length + zeros := by
    rw [List.length_reverse, List.length_append,
      List.length_map, List.length_replicate]
  have hPositive := List.length_pos_iff.mpr hDigits
  rw [hIndex, hLength, if_neg (by omega), List.length_drop,
    hLength, Nat.add_sub_cancel]

theorem length_encodeLength
    {length : Nat}
    (hLength : length < 2 ^ 64)
    (baseline : Nat) :
    (coderEncodeLength length baseline).length =
      lengthSize length := by
  rw [coderEncodeLength, lengthSize]
  split_ifs with hShort
  · rfl
  · rw [List.length_cons,
      length_normalize_littleEndian 8 (by simpa using hLength)
        (by omega),
      Nat.add_comm]

------------------------------------------------------------
-- Reading an Encoding
------------------------------------------------------------

/- The data behind a length is delimited by it. -/
theorem fillData_encodeLength
    {baseline : Nat}
    (hBaseline : Baseline baseline)
    {bytes : List UInt8}
    (hFits :
      (coderEncodeLength bytes.length baseline ++ bytes).length <
        2 ^ 64)
    (rest : List UInt8) :
    rlpGetItemFillData
        (coderEncodeLength bytes.length baseline ++ bytes ++
          rest) =
      some
        (coderEncodeLength bytes.length baseline ++
          bytes).length := by
  rcases first_encodeLength hBaseline bytes.length with
    ⟨first, tail, hFirst, hLow, hHigh⟩
  rw [List.length_append] at hFits
  have hDecode :=
    decodeLength_encodeLength hBaseline
      (show bytes.length < 2 ^ 64 by omega) (bytes ++ rest)
  rw [List.append_assoc, hFirst, List.cons_append,
    rlpGetItemFillData]
  rw [hFirst, List.cons_append] at hDecode
  have hBytes : RLP_PREFIX_BYTES ≤ first.toNat := by
    rcases hBaseline with rfl | rfl
    · exact hLow
    · exact le_trans (by decide) hLow
  have hBase :
      (if first.toNat < RLP_PREFIX_LIST then RLP_PREFIX_BYTES
        else RLP_PREFIX_LIST) = baseline := by
    rcases hBaseline with rfl | rfl
    · rw [if_pos]
      rw [RLP_PREFIX_BYTES] at hHigh
      rw [RLP_PREFIX_LIST]
      omega
    · rw [if_neg (not_lt.mpr hLow)]
  rw [if_pos hBytes, hBase, hDecode]
  simp only [Option.bind_eq_bind, Option.bind_some]
  rw [← hFirst, addSize_eq (by omega), List.length_append,
    Nat.add_comm]

theorem length_encodeLength_le
    (length baseline : Nat) :
    (coderEncodeLength length baseline).length ≤ 9 := by
  have hBytes :=
    length_normalize (littleEndian_ne_nil length)
  rw [length_littleEndian] at hBytes
  rw [coderEncodeLength]
  split_ifs
  · simp
  · rw [List.length_cons]
    omega

theorem length_le_encodeBytes
    (bytes : List UInt8) :
    bytes.length ≤ (coderEncodeBytes bytes).length := by
  rw [coderEncodeBytes]
  split_ifs
  · exact Nat.le_refl _
  · rw [List.length_append]
    exact Nat.le_add_left _ _

theorem length_encodeBytes
    (bytes : List UInt8) :
    0 < (coderEncodeBytes bytes).length ∧
      (coderEncodeBytes bytes).length ≤ 9 + bytes.length := by
  rw [coderEncodeBytes]
  split_ifs with hSingle
  · rw [hSingle.1]
    decide
  · rcases first_encodeLength (Or.inl rfl) bytes.length with
      ⟨first, tail, hFirst, -, -⟩
    have hLength :=
      length_encodeLength_le bytes.length RLP_PREFIX_BYTES
    rw [List.length_append]
    refine ⟨?_, by omega⟩
    rw [hFirst, List.length_cons]
    omega

/- An encoded byte string starts below the lists. -/
theorem first_encodeBytes
    (bytes : List UInt8) :
    ∃ first tail,
      coderEncodeBytes bytes = first :: tail ∧
        first.toNat < RLP_PREFIX_LIST := by
  rw [coderEncodeBytes]
  split_ifs with hSingle
  · rcases List.length_eq_one_iff.mp hSingle.1 with ⟨byte, rfl⟩
    refine ⟨byte, [], rfl, ?_⟩
    exact lt_trans hSingle.2 (by decide)
  · rcases first_encodeLength (Or.inl rfl) bytes.length with
      ⟨first, tail, hFirst, -, hHigh⟩
    rw [hFirst]
    refine ⟨first, tail ++ bytes, rfl, ?_⟩
    rw [RLP_PREFIX_BYTES] at hHigh
    rw [RLP_PREFIX_LIST]
    omega

theorem fillData_encodeBytes
    {bytes : List UInt8}
    (hFits : (coderEncodeBytes bytes).length < 2 ^ 64)
    (rest : List UInt8) :
    rlpGetItemFillData (coderEncodeBytes bytes ++ rest) =
      some (coderEncodeBytes bytes).length := by
  rw [coderEncodeBytes] at hFits ⊢
  split_ifs at hFits ⊢ with hSingle
  · rcases List.length_eq_one_iff.mp hSingle.1 with ⟨byte, rfl⟩
    have hSmall : byte.toNat < RLP_PREFIX_BYTES := hSingle.2
    rw [List.singleton_append, rlpGetItemFillData,
      if_neg (not_le.mpr hSmall)]
    rfl
  · exact fillData_encodeLength (Or.inl rfl) hFits rest

/- The bytes of an encoded byte string. -/
theorem decodeBytes_encodeBytes
    {bytes : List UInt8}
    (hFits : bytes.length < 2 ^ 64) :
    ((coderDecodeLength (coderEncodeBytes bytes)
        RLP_PREFIX_BYTES).bind fun found =>
      slice (coderEncodeBytes bytes) found.2 found.1) =
        some bytes := by
  rw [coderEncodeBytes]
  split_ifs with hSingle
  · rcases List.length_eq_one_iff.mp hSingle.1 with ⟨byte, rfl⟩
    have hSmall : byte.toNat < RLP_PREFIX_BYTES := hSingle.2
    rw [coderDecodeLength, if_pos hSmall]
    exact (Stands.whole [byte]).slice_eq
  · rw [decodeLength_encodeLength (Or.inl rfl) hFits]
    simpa using
      (Stands.whole
        (coderEncodeLength bytes.length RLP_PREFIX_BYTES ++
          bytes)).next.slice_eq

------------------------------------------------------------
-- Sizes
------------------------------------------------------------

mutual
/- A size that memory can hold is the number of the bytes. -/
theorem length_encoding
    (tree : RlpTree)
    (hMemory :
      (encoding tree).length < 2 ^ 64 ∨
        encodedSize tree < 2 ^ 64) :
    (encoding tree).length = encodedSize tree := by
  cases tree with
  | leaf bytes =>
      rw [encoding, encodedSize, coderEncodeBytes] at *
      split_ifs at hMemory ⊢ with hSingle
      · exact hSingle.1
      · rw [List.length_append] at hMemory ⊢
        rw [length_encodeLength (by omega)]
  | node trees =>
      rw [encoding, encodedSize, List.length_append] at hMemory
      have hLengths := length_encodings trees (by omega)
      rw [encoding, encodedSize, List.length_append,
        length_encodeLength (by omega), hLengths]

theorem length_encodings
    (trees : List RlpTree)
    (hMemory :
      (encodings trees).length < 2 ^ 64 ∨
        encodedSizes trees < 2 ^ 64) :
    (encodings trees).length = encodedSizes trees := by
  cases trees with
  | nil =>
      rw [encodings, encodedSizes]
      rfl
  | cons tree trees =>
      rw [encodings, encodedSizes, List.length_append]
        at hMemory
      rw [encodings, encodedSizes, List.length_append,
        length_encoding tree (by omega),
        length_encodings trees (by omega)]
end

theorem memory_iff (tree : RlpTree) :
    (encoding tree).length < 2 ^ 64 ↔
      encodedSize tree < 2 ^ 64 := by
  constructor
  · intro hMemory
    rw [← length_encoding tree (Or.inl hMemory)]
    exact hMemory
  · intro hMemory
    rw [length_encoding tree (Or.inr hMemory)]
    exact hMemory

mutual
/- A tree fits when its bytes do. -/
theorem stored_iff
    (tree : RlpTree) :
    Stored tree ↔ Fits tree := by
  cases tree with
  | leaf bytes =>
      rw [Stored, Fits]
  | node trees =>
      rw [Stored, Fits, memory_iff, allStored_iff]

theorem allStored_iff
    (trees : List RlpTree) :
    AllStored trees ↔ AllFit trees := by
  cases trees with
  | nil => rw [AllStored, AllFit]
  | cons tree trees =>
      rw [AllStored, AllFit, stored_iff, allStored_iff]
end

------------------------------------------------------------
-- Growing Coders
------------------------------------------------------------

/- Contexts are only added behind the others. -/
def Extends (coder later : BRRlpCoder) : Prop :=
  coder.contexts <+: later.contexts

theorem Extends.refl (coder : BRRlpCoder) :
    Extends coder coder :=
  List.prefix_refl _

theorem Extends.trans
    {coder middle later : BRRlpCoder}
    (hFirst : Extends coder middle)
    (hSecond : Extends middle later) :
    Extends coder later :=
  List.IsPrefix.trans hFirst hSecond

theorem extends_add
    (coder : BRRlpCoder)
    (context : BRRlpContext) :
    Extends coder (coderAddContext coder context).2 :=
  List.prefix_append _ _

theorem Extends.lookup
    {coder later : BRRlpCoder}
    (hExtends : Extends coder later)
    {item : BRRlpItem}
    {context : BRRlpContext}
    (hContext : coderLookupContext coder item = some context) :
    coderLookupContext later item = some context := by
  rcases hExtends with ⟨added, hAdded⟩
  rw [coderLookupContext, ← hAdded,
    List.getElem?_append_left]
  · exact hContext
  · exact (List.getElem?_eq_some_iff.mp hContext).1

@[simp]
theorem lookup_add
    (coder : BRRlpCoder)
    (context : BRRlpContext) :
    coderLookupContext (coderAddContext coder context).2
        (coderAddContext coder context).1 =
      some context := by
  simp [coderLookupContext, coderAddContext]

------------------------------------------------------------
-- Writing a Tree
------------------------------------------------------------

/- The context of an item has these bytes. -/
def HasBytes
    (coder : BRRlpCoder)
    (bytes : List UInt8)
    (item : BRRlpItem) : Prop :=
  ∃ context,
    coderLookupContext coder item = some context ∧
      context.bytes = bytes

theorem Extends.hasBytes
    {coder later : BRRlpCoder}
    (hExtends : Extends coder later)
    {bytes : List UInt8}
    {item : BRRlpItem}
    (hBytes : HasBytes coder bytes item) :
    HasBytes later bytes item := by
  rcases hBytes with ⟨context, hContext, hEqual⟩
  exact ⟨context, hExtends.lookup hContext, hEqual⟩

/- The bytes of the items of a list, one after another. -/
inductive HaveBytes (coder : BRRlpCoder) :
    List UInt8 → List BRRlpItem → Prop where
  | nil : HaveBytes coder [] []
  | cons
      {bytes rest : List UInt8}
      {item : BRRlpItem}
      {items : List BRRlpItem}
      (hBytes : HasBytes coder bytes item)
      (hRest : HaveBytes coder rest items) :
      HaveBytes coder (bytes ++ rest) (item :: items)

theorem HaveBytes.contexts
    {coder : BRRlpCoder}
    {bytes : List UInt8}
    {items : List BRRlpItem}
    (hBytes : HaveBytes coder bytes items) :
    ∃ contexts,
      items.mapM (coderLookupContext coder) = some contexts ∧
        contexts.flatMap BRRlpContext.bytes = bytes := by
  induction hBytes with
  | nil => exact ⟨[], rfl, rfl⟩
  | cons hBytes hRest ih =>
      rcases hBytes with ⟨context, hContext, rfl⟩
      rcases ih with ⟨contexts, hContexts, rfl⟩
      exact
        ⟨context :: contexts,
          by simp [List.mapM_cons, hContext, hContexts], rfl⟩

/- An empty list needs no case of its own. -/
theorem encodeList_eq
    {coder : BRRlpCoder}
    {bytes : List UInt8}
    {items : List BRRlpItem}
    (hBytes : HaveBytes coder bytes items) :
    coderEncodeList coder items =
      if (coderEncodeLength bytes.length RLP_PREFIX_LIST ++
          bytes).length < 2 ^ 64 then
        createContextList
          (coderEncodeLength bytes.length RLP_PREFIX_LIST ++
            bytes)
          items
      else none := by
  rcases hBytes.contexts with ⟨contexts, hContexts, rfl⟩
  have hSame :
      ∀ bytes : List UInt8,
        (if bytes.length = 0 then
            coderEncodeLength bytes.length RLP_PREFIX_LIST
          else
            coderEncodeLength bytes.length RLP_PREFIX_LIST ++
              bytes) =
          coderEncodeLength bytes.length RLP_PREFIX_LIST ++
            bytes := by
    intro bytes
    split_ifs with hEmpty
    · rw [List.length_eq_zero_iff.mp hEmpty, List.append_nil]
    · rfl
  simp only [coderEncodeList, hContexts, Option.bind_eq_bind,
    Option.bind_some, hSame]

/- What encoding a list of items gives. -/
theorem encodeListItems_spec
    {coder : BRRlpCoder}
    {bytes : List UInt8}
    {items : List BRRlpItem}
    (hBytes : HaveBytes coder bytes items)
    (item : BRRlpItem)
    (written : BRRlpCoder) :
    rlpEncodeListItems coder items = some (item, written) ↔
      items.length < 2 ^ 31 ∧
        (coderEncodeLength bytes.length RLP_PREFIX_LIST ++
          bytes).length < 2 ^ 64 ∧
        (item, written) =
          coderAddContext coder
            { type := .list
              bytes :=
                coderEncodeLength bytes.length RLP_PREFIX_LIST ++
                  bytes
              items := items } := by
  rw [rlpEncodeListItems, encodeList_eq hBytes]
  split_ifs with hMemory
  · rw [createContextList]
    split_ifs with hCount
    · simp only [Option.bind_eq_bind, Option.bind_some,
        Option.some.injEq, hCount, hMemory, true_and]
      exact eq_comm
    · constructor
      · intro hNone
        cases hNone
      · intro hSome
        exact absurd hSome.1 hCount
  · constructor
    · intro hNone
      cases hNone
    · intro hSome
      exact absurd hSome.2.1 hMemory

mutual
/- The bytes of an item that a tree was encoded as. -/
theorem encodeTree_spec
    (tree : RlpTree)
    (coder : BRRlpCoder)
    {item : BRRlpItem}
    {written : BRRlpCoder}
    (hEncode : encodeTree coder tree = some (item, written)) :
    Stored tree ∧ Extends coder written ∧
      HasBytes written (encoding tree) item := by
  cases tree with
  | leaf bytes =>
      rw [encodeTree] at hEncode
      have hSame := Option.some.inj hEncode
      rw [rlpEncodeItemBytes] at hSame
      cases hSame
      refine ⟨by simp [Stored], extends_add _ _, ?_⟩
      exact ⟨_, lookup_add _ _, by rw [encoding]; rfl⟩
  | node trees =>
      simp only [encodeTree, Option.bind_eq_bind,
        Option.bind_eq_some_iff] at hEncode
      rcases hEncode with ⟨⟨items, middle⟩, hItems, hList⟩
      rcases encodeTrees_spec trees coder hItems with
        ⟨hAllFit, hExtends, hCount, hBytes⟩
      rcases (encodeListItems_spec hBytes item written).mp
          hList with
        ⟨hShort, hMemory, hSame⟩
      cases hSame
      refine ⟨?_, hExtends.trans (extends_add _ _), ?_⟩
      · rw [Stored, encoding, ← hCount]
        exact ⟨hShort, hMemory, hAllFit⟩
      · rw [encoding]
        exact ⟨_, lookup_add _ _, rfl⟩

theorem encodeTrees_spec
    (trees : List RlpTree)
    (coder : BRRlpCoder)
    {items : List BRRlpItem}
    {written : BRRlpCoder}
    (hEncode :
      encodeTrees coder trees = some (items, written)) :
    AllStored trees ∧ Extends coder written ∧
      items.length = trees.length ∧
      HaveBytes written (encodings trees) items := by
  cases trees with
  | nil =>
      rw [encodeTrees] at hEncode
      cases hEncode
      rw [AllStored, encodings]
      exact ⟨trivial, Extends.refl _, rfl, HaveBytes.nil⟩
  | cons tree trees =>
      simp only [encodeTrees, Option.bind_eq_bind,
        Option.bind_eq_some_iff] at hEncode
      rcases hEncode with
        ⟨⟨item, middle⟩, hItem, ⟨rest, final⟩, hRest, hEqual⟩
      cases hEqual
      rcases encodeTree_spec tree coder hItem with
        ⟨hFits, hFirst, hBytes⟩
      rcases encodeTrees_spec trees middle hRest with
        ⟨hAllFit, hSecond, hCount, hAllBytes⟩
      rw [AllStored, encodings, List.length_cons,
        List.length_cons, hCount]
      exact
        ⟨⟨hFits, hAllFit⟩, hFirst.trans hSecond, rfl,
          HaveBytes.cons (hSecond.hasBytes hBytes) hAllBytes⟩
end

mutual
/- A tree that fits is encoded. -/
theorem encodeTree_of_stored
    (tree : RlpTree)
    (coder : BRRlpCoder)
    (hFits : Stored tree) :
    ∃ item written,
      encodeTree coder tree = some (item, written) := by
  cases tree with
  | leaf bytes =>
      rw [encodeTree]
      exact ⟨_, _, rfl⟩
  | node trees =>
      rw [Stored, encoding] at hFits
      rcases encodeTrees_of_stored trees coder hFits.2.2 with
        ⟨items, middle, hItems⟩
      rcases encodeTrees_spec trees coder hItems with
        ⟨-, -, hCount, hBytes⟩
      have hList :=
        (encodeListItems_spec hBytes _ _).mpr
          ⟨by rw [hCount]; exact hFits.1, hFits.2.1, rfl⟩
      rw [encodeTree, hItems]
      exact ⟨_, _, hList⟩

theorem encodeTrees_of_stored
    (trees : List RlpTree)
    (coder : BRRlpCoder)
    (hFits : AllStored trees) :
    ∃ items written,
      encodeTrees coder trees = some (items, written) := by
  cases trees with
  | nil =>
      rw [encodeTrees]
      exact ⟨_, _, rfl⟩
  | cons tree trees =>
      rw [AllStored] at hFits
      rcases encodeTree_of_stored tree coder hFits.1 with
        ⟨item, middle, hItem⟩
      rcases encodeTrees_of_stored trees middle hFits.2 with
        ⟨items, written, hItems⟩
      refine ⟨item :: items, written, ?_⟩
      simp only [encodeTrees, hItem, hItems,
        Option.bind_eq_bind, Option.bind_some]
end

------------------------------------------------------------
-- Reading a Tree
------------------------------------------------------------

/- The data of a tree is delimited by itself. -/
theorem fillData_encoding
    {tree : RlpTree}
    (hMemory : (encoding tree).length < 2 ^ 64)
    (rest : List UInt8) :
    rlpGetItemFillData (encoding tree ++ rest) =
      some (encoding tree).length := by
  cases tree with
  | leaf bytes =>
      rw [encoding] at hMemory ⊢
      exact fillData_encodeBytes hMemory rest
  | node trees =>
      rw [encoding] at hMemory ⊢
      exact fillData_encodeLength (Or.inr rfl) hMemory rest

/-
  An item stands for a tree in this coder and in every one
  that extends it.
-/
structure Holds
    (coder : BRRlpCoder)
    (tree : RlpTree)
    (item : BRRlpItem) : Prop where
  valid : item < coder.contexts.length
  decodes :
    ∀ later, Extends coder later → ∀ depth, item < depth →
      decodeTreeR later depth item = some tree

theorem Extends.holds
    {coder later : BRRlpCoder}
    (hExtends : Extends coder later)
    {tree : RlpTree}
    {item : BRRlpItem}
    (hHolds : Holds coder tree item) :
    Holds later tree item where
  valid := lt_of_lt_of_le hHolds.valid hExtends.length_le
  decodes := fun final hFinal =>
    hHolds.decodes final (hExtends.trans hFinal)

/- A byte string is held by the context of its encoding. -/
theorem holds_leaf
    (coder : BRRlpCoder)
    {bytes : List UInt8}
    (hShort : bytes.length < 2 ^ 64) :
    Holds
      (coderAddContext coder
        (createContextItem (coderEncodeBytes bytes))).2
      (.leaf bytes)
      (coderAddContext coder
        (createContextItem (coderEncodeBytes bytes))).1 where
  valid := by simp [coderAddContext]
  decodes := by
    intro later hLater depth hDepth
    cases depth with
    | zero => exact absurd hDepth (Nat.not_lt_zero _)
    | succ depth =>
        have hContext := hLater.lookup (lookup_add _ _)
        have hDecode := decodeBytes_encodeBytes hShort
        have hBytes :
            rlpDecodeItemBytes later
                (coderAddContext coder
                  (createContextItem
                    (coderEncodeBytes bytes))).1 =
              some bytes := by
          rw [rlpDecodeItemBytes, hContext]
          exact hDecode
        simp only [decodeTreeR, rlpDecodeList, hContext,
          Option.bind_eq_bind, Option.bind_some]
        simp only [createContextItem] at hBytes ⊢
        simp only [hBytes, Option.bind_some]

/- A list is held by a context of items that hold its trees. -/
theorem holds_node
    {coder : BRRlpCoder}
    {trees : List RlpTree}
    {items : List BRRlpItem}
    (hItems : List.Forall₂ (Holds coder) trees items)
    (data : List UInt8) :
    Holds
      (coderAddContext coder
        { type := .list
          bytes := data
          items := items }).2
      (.node trees)
      (coderAddContext coder
        { type := .list
          bytes := data
          items := items }).1 where
  valid := by simp [coderAddContext]
  decodes := by
    intro later hLater depth hDepth
    cases depth with
    | zero => exact absurd hDepth (Nat.not_lt_zero _)
    | succ depth =>
        have hContext := hLater.lookup (lookup_add _ _)
        have hExtends := (extends_add _ _).trans hLater
        have hBound : coder.contexts.length ≤ depth :=
          Nat.le_of_lt_succ hDepth
        have hAll :
            items.mapM (decodeTreeR later depth) =
              some trees := by
          rw [MapM.eq_some_iff]
          apply List.Forall₂.flip
          exact hItems.imp fun tree item hHolds =>
            hHolds.decodes later hExtends depth
              (lt_of_lt_of_le hHolds.valid hBound)
        simp only [decodeTreeR, rlpDecodeList, hContext,
          Option.bind_eq_bind, Option.bind_some, hAll]

theorem length_encoding_pos
    (tree : RlpTree) :
    0 < (encoding tree).length := by
  cases tree with
  | leaf bytes =>
      rw [encoding]
      exact (length_encodeBytes bytes).1
  | node trees =>
      rcases first_encodeLength (Or.inr rfl)
          (encodings trees).length with
        ⟨first, tail, hFirst, -, -⟩
      rw [encoding, hFirst, List.cons_append, List.length_cons]
      omega

/- A round of the loop reads the item that stands in front. -/
theorem getItems_next
    {getItem :
      BRRlpCoder → List UInt8 → Nat →
        Option (BRRlpItem × BRRlpCoder)}
    {rounds left bytesCount : Nat}
    {coder middle : BRRlpCoder}
    {bytes : List UInt8}
    {item : BRRlpItem}
    (hLeft : 0 < left)
    (hCount : rlpGetItemFillData bytes = some bytesCount)
    (hItem :
      getItem coder bytes bytesCount = some (item, middle)) :
    getItems getItem (rounds + 1) coder bytes left =
      (getItems getItem rounds middle (bytes.drop bytesCount)
        (left - bytesCount)).map
          fun found => (item :: found.1, found.2) := by
  cases left with
  | zero => exact absurd hLeft (lt_irrefl 0)
  | succ left =>
      simp only [getItems, hCount, hItem, Option.bind_eq_bind,
        Option.bind_some, Option.map_eq_bind]
      rfl

/- A list is read as the items of its payload. -/
theorem getItemR_node
    {depth : Nat}
    {coder middle : BRRlpCoder}
    {payload rest : List UInt8}
    {items : List BRRlpItem}
    (hMemory :
      (coderEncodeLength payload.length RLP_PREFIX_LIST ++
        payload).length < 2 ^ 64)
    (hItems :
      getItems (getItemR depth)
          (coderEncodeLength payload.length RLP_PREFIX_LIST ++
            payload).length
          coder (payload ++ rest) payload.length =
        some (items, middle))
    (hCount : items.length < 2 ^ 31) :
    getItemR (depth + 1) coder
        (coderEncodeLength payload.length RLP_PREFIX_LIST ++
          payload ++ rest)
        (coderEncodeLength payload.length RLP_PREFIX_LIST ++
          payload).length =
      some
        (coderAddContext middle
          { type := .list
            bytes :=
              coderEncodeLength payload.length RLP_PREFIX_LIST ++
                payload
            items := items }) := by
  rcases first_encodeLength (Or.inr rfl) payload.length with
    ⟨first, tail, hFirst, hLow, -⟩
  have hLength :
      (coderEncodeLength payload.length RLP_PREFIX_LIST ++
          payload).length =
        (coderEncodeLength payload.length
          RLP_PREFIX_LIST).length + payload.length :=
    List.length_append
  have hHead :
      ((coderEncodeLength payload.length RLP_PREFIX_LIST ++
        payload ++ rest).headD 0) = first := by
    rw [hFirst]
    rfl
  have hSlice :=
    (Stands.whole
      (coderEncodeLength payload.length RLP_PREFIX_LIST ++
        payload ++ rest)).front.slice_eq
  have hPositive :
      0 < (coderEncodeLength payload.length
        RLP_PREFIX_LIST).length := by
    rw [hFirst, List.length_cons]
    omega
  have hDecode :=
    decodeLength_encodeLength (Or.inr rfl)
      (show payload.length < 2 ^ 64 by omega) (payload ++ rest)
  rw [← List.append_assoc] at hDecode
  rw [getItemR, if_neg (by omega), hHead,
    if_neg (not_lt.mpr hLow), hDecode]
  simp only [Option.bind_eq_bind, Option.bind_some]
  rw [addSize_eq (by omega), if_pos (by omega), hSlice]
  have hDrop :
      (coderEncodeLength payload.length RLP_PREFIX_LIST ++
            payload ++ rest).drop
          (coderEncodeLength payload.length
            RLP_PREFIX_LIST).length =
        payload ++ rest := by
    rw [List.append_assoc, List.drop_left]
  have hLeft :
      (coderEncodeLength payload.length RLP_PREFIX_LIST ++
            payload).length -
          (coderEncodeLength payload.length
            RLP_PREFIX_LIST).length =
        payload.length := by
    omega
  rw [hDrop, hLeft, hItems]
  simp only [Option.bind_some, createContextList, if_pos hCount]

mutual
/- A tree is read back in front of anything. -/
theorem getItemR_spec
    (tree : RlpTree)
    (hMemory : (encoding tree).length < 2 ^ 64)
    (hFits : Stored tree)
    (rest : List UInt8)
    (depth : Nat)
    (hDepth : (encoding tree).length ≤ depth)
    (coder : BRRlpCoder) :
    ∃ item final,
      getItemR depth coder (encoding tree ++ rest)
          (encoding tree).length =
        some (item, final) ∧
      Extends coder final ∧ Holds final tree item := by
  have hPositive := length_encoding_pos tree
  cases depth with
  | zero => omega
  | succ depth =>
      cases tree with
      | leaf bytes =>
          rw [encoding] at hPositive hMemory ⊢
          have hLeaf := length_le_encodeBytes bytes
          rcases first_encodeBytes bytes with
            ⟨first, tail, hFirst, hLow⟩
          have hHead :
              ((coderEncodeBytes bytes ++ rest).headD 0) =
                first := by
            rw [hFirst]
            rfl
          have hSlice :=
            (Stands.whole
              (coderEncodeBytes bytes ++ rest)).front.slice_eq
          rw [getItemR, if_neg (by omega), hHead, if_pos hLow,
            hSlice]
          exact
            ⟨_, _, rfl, extends_add _ _,
              holds_leaf coder (by omega)⟩
      | node trees =>
          rw [encoding, List.length_append] at hDepth
          rw [encoding]
          rw [Stored, encoding] at hFits
          rw [encoding, List.length_append] at hMemory
          rcases first_encodeLength (Or.inr rfl)
              (encodings trees).length with
            ⟨first, tail, hFirst, -, -⟩
          have hHeader :
              0 < (coderEncodeLength (encodings trees).length
                RLP_PREFIX_LIST).length := by
            rw [hFirst, List.length_cons]
            omega
          have hRounds :
              (encodings trees).length ≤
                (coderEncodeLength (encodings trees).length
                    RLP_PREFIX_LIST ++
                  encodings trees).length := by
            rw [List.length_append]
            omega
          rcases getItems_spec trees (by omega) hFits.2.2 rest
              depth (by omega) _ hRounds coder with
            ⟨items, middle, hItems, hExtends, hHolds⟩
          have hCount := hHolds.length_eq
          refine
            ⟨_, _,
              getItemR_node hFits.2.1 hItems
                (hCount ▸ hFits.1), ?_, ?_⟩
          · exact hExtends.trans (extends_add _ _)
          · exact holds_node hHolds _

theorem getItems_spec
    (trees : List RlpTree)
    (hMemory : (encodings trees).length < 2 ^ 64)
    (hFits : AllStored trees)
    (rest : List UInt8)
    (depth : Nat)
    (hDepth : (encodings trees).length ≤ depth)
    (rounds : Nat)
    (hRounds : (encodings trees).length ≤ rounds)
    (coder : BRRlpCoder) :
    ∃ items final,
      getItems (getItemR depth) rounds coder
          (encodings trees ++ rest) (encodings trees).length =
        some (items, final) ∧
      Extends coder final ∧
      List.Forall₂ (Holds final) trees items := by
  cases trees with
  | nil =>
      rw [encodings, List.length_nil]
      refine
        ⟨[], coder, ?_, Extends.refl coder, List.Forall₂.nil⟩
      cases rounds <;> rfl
  | cons tree trees =>
      rw [AllStored] at hFits
      rw [encodings, List.length_append]
        at hDepth hRounds hMemory
      have hPositive := length_encoding_pos tree
      rcases getItemR_spec tree (by omega) hFits.1
          (encodings trees ++ rest) depth (by omega) coder with
        ⟨item, middle, hItem, hFirst, hHolds⟩
      cases rounds with
      | zero => omega
      | succ rounds =>
          rcases getItems_spec trees (by omega) hFits.2 rest
              depth (by omega) rounds (by omega) middle with
            ⟨items, final, hItems, hSecond, hRest⟩
          refine
            ⟨item :: items, final, ?_, hFirst.trans hSecond,
              List.Forall₂.cons (hSecond.holds hHolds) hRest⟩
          rw [encodings, List.append_assoc, List.length_append,
            getItems_next (by omega)
              (fillData_encoding (by omega) _) hItem,
            List.drop_left, Nat.add_sub_cancel_left, hItems]
          rfl
end

/- The bytes of a tree that fits are read as the same tree. -/
theorem getItem_encoding
    {tree : RlpTree}
    (hMemory : (encoding tree).length < 2 ^ 64)
    (hFits : Stored tree)
    (reader : BRRlpCoder) :
    ∃ read final,
      rlpGetItem reader (encoding tree) = some (read, final) ∧
        decodeTree final read = some tree := by
  rcases getItemR_spec tree hMemory hFits []
      ((encoding tree).length + 1) (Nat.le_succ _) reader with
    ⟨read, final, hRead, -, hHolds⟩
  rw [List.append_nil] at hRead
  exact
    ⟨read, final, hRead,
      hHolds.decodes final (Extends.refl final) _
        (Nat.lt_succ_self _)⟩

/- What the coder writes is what a tree's encoding says. -/
theorem dataExtract_of_hasBytes
    {coder : BRRlpCoder}
    {bytes : List UInt8}
    {item : BRRlpItem}
    (hBytes : HasBytes coder bytes item) :
    rlpDataExtract coder item = some bytes := by
  rcases hBytes with ⟨context, hContext, rfl⟩
  rw [rlpDataExtract, hContext]
  rfl

------------------------------------------------------------
-- Round Trips of Numbers
------------------------------------------------------------

/- The test for the empty string, on an encoded byte string. -/
theorem isEmptyString_eq
    {coder : BRRlpCoder}
    {item : BRRlpItem}
    {bytes : List UInt8}
    (hContext :
      coderLookupContext coder item =
        some (createContextItem (coderEncodeBytes bytes))) :
    rlpDecodeItemIsEmptyString coder item =
      some (decide (bytes = [])) := by
  rw [rlpDecodeItemIsEmptyString, hContext]
  simp only [Option.bind_eq_bind, Option.bind_some,
    createContextItem, true_and, Option.some.injEq,
    decide_eq_decide]
  constructor
  · rintro ⟨hLength, hPrefix⟩
    by_contra hBytes
    have hPositive := List.length_pos_iff.mpr hBytes
    rw [coderEncodeBytes] at hLength hPrefix
    split_ifs at hLength hPrefix with hSingle
    · exact not_lt.mpr hPrefix hSingle.2
    · rcases first_encodeLength (Or.inl rfl) bytes.length with
        ⟨first, tail, hFirst, -, -⟩
      rw [List.length_append, hFirst, List.length_cons]
        at hLength
      omega
  · rintro rfl
    decide

theorem decodeNumber_encodeNumber
    {source : List UInt8}
    (hSource : source ≠ [])
    (hShort : source.length < 2 ^ 64) :
    coderDecodeNumber source.length
        (coderEncodeNumber source) =
      some source := by
  have hBytes := length_normalize hSource
  have hDecode :=
    decodeBytes_encodeBytes
      (show
        (convertToBigEndianAndNormalize source).length <
          2 ^ 64 by omega)
  rw [Option.bind_eq_some_iff] at hDecode
  rcases hDecode with ⟨found, hFound, hSlice⟩
  rw [coderDecodeNumber, coderEncodeNumber, hFound]
  simp only [Option.bind_eq_bind, Option.bind_some, hSlice]
  exact convertFromBigEndian_normalize hSource

/- The empty string is read as an empty number. -/
theorem decodeNumber_empty
    (targetCount : Nat) :
    coderDecodeNumber targetCount (coderEncodeBytes []) =
      some (List.replicate targetCount 0) := by
  have hEmpty : coderEncodeBytes [] = [0x80] := by decide
  have hLength :
      coderDecodeLength [0x80] RLP_PREFIX_BYTES =
        some (0, 1) := by
    decide
  rw [hEmpty, coderDecodeNumber, hLength]
  simp [slice, convertFromBigEndian]

theorem normalize_ne_nil
    {source : List UInt8}
    (hSource : source ≠ []) :
    convertToBigEndianAndNormalize source ≠ [] :=
  List.length_pos_iff.mp (length_normalize hSource).1

theorem decodeUInt64_encodeUInt64
    (coder : BRRlpCoder)
    (value : UInt64)
    (zeroAsEmptyString asRead : Bool) :
    rlpDecodeItemUInt64
        (rlpEncodeItemUInt64 coder value zeroAsEmptyString).2
        (rlpEncodeItemUInt64 coder value zeroAsEmptyString).1
        asRead =
      some value := by
  rw [rlpEncodeItemUInt64]
  split_ifs with hZero
  · have hContext := lookup_add coder
      (createContextItem (coderEncodeBytes []))
    rw [rlpEncodeItemBytes, rlpDecodeItemUInt64,
      isEmptyString_eq hContext, hContext]
    simp only [Option.bind_eq_bind, Option.bind_some,
      createContextItem, decodeNumber_empty, hZero.2]
    split_ifs <;> rfl
  · have hContext := lookup_add coder
      (createContextItem
        (coderEncodeNumber (littleEndian 8 value.toNat)))
    have hSource := littleEndian_ne_nil value.toNat
    have hDecode :=
      decodeNumber_encodeNumber hSource
        (by rw [length_littleEndian]; decide)
    rw [length_littleEndian] at hDecode
    rw [rlpDecodeItemUInt64, isEmptyString_eq hContext,
      hContext]
    simp only [Option.bind_eq_bind, Option.bind_some,
      normalize_ne_nil hSource, decide_false,
      Bool.false_eq_true, and_false, if_false,
      createContextItem, hDecode]
    rw [ofLittleEndian_littleEndian 8
      (by simpa using value.toNat_lt), UInt64.ofNat_toNat]

theorem decodeUInt256_encodeUInt256
    (coder : BRRlpCoder)
    (value : UInt256)
    (zeroAsEmptyString asRead : Bool) :
    rlpDecodeItemUInt256
        (rlpEncodeItemUInt256 coder value zeroAsEmptyString).2
        (rlpEncodeItemUInt256 coder value zeroAsEmptyString).1
        asRead =
      some value := by
  rw [rlpEncodeItemUInt256]
  split_ifs with hZero
  · have hContext := lookup_add coder
      (createContextItem (coderEncodeBytes []))
    rw [rlpEncodeItemBytes, rlpDecodeItemUInt256,
      isEmptyString_eq hContext, hContext]
    simp only [Option.bind_eq_bind, Option.bind_some,
      createContextItem, decodeNumber_empty, hZero.2]
    split_ifs
    · rfl
    · decide
  · have hContext := lookup_add coder
      (createContextItem (coderEncodeNumber value.toList))
    have hLength : value.toList.length = 32 :=
      value.toList_length
    have hSource : value.toList ≠ [] := by
      rw [← List.length_pos_iff, hLength]
      decide
    have hDecode :=
      decodeNumber_encodeNumber hSource
        (by rw [hLength]; decide)
    rw [hLength] at hDecode
    rw [rlpDecodeItemUInt256, isEmptyString_eq hContext,
      hContext]
    simp only [Option.bind_eq_bind, Option.bind_some,
      normalize_ne_nil hSource, decide_false,
      Bool.false_eq_true, and_false, if_false,
      createContextItem, hDecode]
    rw [hashOfBytes_toList]

------------------------------------------------------------
-- Round Trips
------------------------------------------------------------

theorem memory_of_shortLeaves
    {tree : RlpTree}
    (hShort : ShortLeaves tree)
    (hFits : Stored tree) :
    (encoding tree).length < 2 ^ 64 := by
  cases tree with
  | leaf bytes =>
      have hLength := length_encodeBytes bytes
      rw [ShortLeaves] at hShort
      rw [encoding]
      omega
  | node trees =>
      rw [Stored] at hFits
      exact hFits.2.1

/- The list of an empty string and an empty list. -/
def smallTree : RlpTree := .node [.leaf [], .node []]

end Rlp

end PlusWallet
