import PlusWallet.Ethereum.BREthereumLog

/-
  The Bloom filters of `BREthereumBloomFilter.c`, with those of
  addresses and of the log topics of `BREthereumLog.c`.  A filter
  is a set of numbers below 2048.

  Main declarations:
    * `bloomFilterCreateHash`, `bloomFilterOr`,
      `bloomFilterOrInPlace`, `bloomFilterMatch`
    * `hasBit`, `hasBit_bloomFilterOr`,
      `bloomFilterMatch_iff`
    * `hasBit_accumulated`
    * `accumulates_iff`
-/

namespace PlusWallet

namespace BloomFilter

/- `ETHEREUM_BLOOM_FILTER_BITS` -/
abbrev ETHEREUM_BLOOM_FILTER_BITS : Nat := 2048

/- `ETHEREUM_BLOOM_FILTER_BYTES` -/
abbrev ETHEREUM_BLOOM_FILTER_BYTES : Nat :=
  ETHEREUM_BLOOM_FILTER_BITS / 8

/- `ETHERUM_BLOOM_FILTER_BITS_MASK` -/
abbrev ETHERUM_BLOOM_FILTER_BITS_MASK : Nat :=
  ETHEREUM_BLOOM_FILTER_BITS - 1

------------------------------------------------------------
-- Single Bits
------------------------------------------------------------

/- The number of a bit, as `bloomFilterExtractLocation` asserts. -/
abbrev Index := Fin ETHEREUM_BLOOM_FILTER_BITS

/- `bloomFilterExtractLocation`, the byte -/
def byteIndex (index : Index) :
    Fin ETHEREUM_BLOOM_FILTER_BYTES :=
  ⟨(ETHEREUM_BLOOM_FILTER_BITS - 1 - index) / 8, by
    have hIndex : index.val < 2048 := index.isLt
    change (2048 - 1 - index.val) / 8 < 256
    omega⟩

/- `bloomFilterExtractLocation`, the bit -/
def bitIndex (index : Index) : Nat := index % 8

/- `bloomFilterSetBit` -/
def bloomFilterSetBit
    (filter : BREthereumBloomFilter)
    (index : Index) : BREthereumBloomFilter :=
  filter.set (byteIndex index)
    (filter.get (byteIndex index) |||
      UInt8.ofNat (1 <<< bitIndex index))

/- `bloomFilterCreateIndex` -/
def bloomFilterCreateIndex
    (highByte lowByte : UInt8) : Index :=
  ⟨((highByte.toNat <<< 8) ||| lowByte.toNat) &&&
      ETHERUM_BLOOM_FILTER_BITS_MASK,
    Nat.and_lt_two_pow _ (show _ < 2 ^ 11 by decide)⟩

/- The yellow paper has the bits 0 to 7 in byte 255. -/
def yellowByte (index : Index) : Fin 256 :=
  ⟨255 - index.val / 8, by omega⟩

/- The bits of a filter, as numbered in the yellow paper. -/
def hasBit
    (filter : BREthereumBloomFilter)
    (index : Index) : Bool :=
  (filter.get (yellowByte index)).toNat.testBit (index % 8)

theorem byteIndex_eq (index : Index) :
    byteIndex index = yellowByte index := by
  have hIndex : index.val < 2048 := index.isLt
  apply Fin.ext
  change (2048 - 1 - index.val) / 8 = 255 - index.val / 8
  omega

theorem hasBit_eq
    (filter : BREthereumBloomFilter)
    (index : Index) :
    hasBit filter index =
      (filter.get (byteIndex index)).toNat.testBit
        (bitIndex index) := by
  rw [byteIndex_eq, hasBit, bitIndex]

/- The bits tell filters apart. -/
theorem eq_of_hasBit
    {filter other : BREthereumBloomFilter}
    (hBits : ∀ index, hasBit filter index = hasBit other index) :
    filter = other := by
  apply List.Vector.ext
  intro i
  apply UInt8.toNat_inj.mp
  apply Nat.eq_of_testBit_eq
  intro k
  rcases Nat.lt_or_ge k 8 with hLt | hGe
  · have hIndex : (255 - i.val) * 8 + k < 2048 := by
      omega
    have hBit := hBits ⟨(255 - i.val) * 8 + k, hIndex⟩
    have hByte :
        yellowByte ⟨(255 - i.val) * 8 + k, hIndex⟩ = i := by
      have hLength : i.val < 256 := i.isLt
      apply Fin.ext
      change 255 - ((255 - i.val) * 8 + k) / 8 = i.val
      omega
    have hPlace : ((255 - i.val) * 8 + k) % 8 = k := by
      omega
    unfold hasBit at hBit
    dsimp only at hBit
    rwa [hByte, hPlace] at hBit
  · have hSmall : ∀ byte : UInt8, byte.toNat < 2 ^ k := by
      intro byte
      have hPow : 2 ^ 8 ≤ 2 ^ k :=
        Nat.pow_le_pow_right (by decide) hGe
      have hByte := byte.toNat_lt
      omega
    rw [Nat.testBit_lt_two_pow (hSmall _),
      Nat.testBit_lt_two_pow (hSmall _)]

theorem testBit_shift
    {place other : Nat}
    (hPlace : place < 8) :
    (UInt8.ofNat (1 <<< place)).toNat.testBit other =
      decide (place = other) := by
  have hPow : 2 ^ place < 2 ^ 8 :=
    Nat.pow_lt_pow_right (by decide) hPlace
  rw [UInt8.toNat_ofNat', Nat.one_shiftLeft,
    Nat.mod_eq_of_lt hPow, Nat.testBit_two_pow]

theorem hasBit_bloomFilterSetBit
    (filter : BREthereumBloomFilter)
    (index other : Index) :
    hasBit (bloomFilterSetBit filter index) other =
      (hasBit filter other || decide (other = index)) := by
  have hPlace : bitIndex index < 8 :=
    Nat.mod_lt _ (by decide)
  rw [hasBit_eq, hasBit_eq, bloomFilterSetBit]
  by_cases hByte : byteIndex index = byteIndex other
  · rw [← hByte, List.Vector.get_set_same, UInt8.toNat_or,
      Nat.testBit_or, testBit_shift hPlace]
    congr 1
    apply decide_eq_decide.mpr
    have hIndex : index.val < 2048 := index.isLt
    have hOther : other.val < 2048 := other.isLt
    have hNumber := congrArg Fin.val hByte
    change (2048 - 1 - index.val) / 8 =
      (2048 - 1 - other.val) / 8 at hNumber
    change index.val % 8 = other.val % 8 ↔ other = index
    rw [Fin.ext_iff]
    omega
  · rw [List.Vector.get_set_of_ne hByte]
    have hOther : other ≠ index := by
      rintro rfl
      exact hByte rfl
    rw [decide_eq_false hOther, Bool.or_false]

------------------------------------------------------------
-- Filters
------------------------------------------------------------

/- `bloomFilterCreateEmpty` -/
def bloomFilterCreateEmpty : BREthereumBloomFilter :=
  List.Vector.replicate ETHEREUM_BLOOM_FILTER_BYTES 0

theorem hasBit_bloomFilterCreateEmpty (index : Index) :
    hasBit bloomFilterCreateEmpty index = false := by
  have hZero :
      bloomFilterCreateEmpty.get (yellowByte index) = 0 :=
    List.Vector.get_replicate 0 _
  rw [hasBit, hZero]
  exact Nat.zero_testBit _

/- `bloomFilterCreateHash` -/
def bloomFilterCreateHash
    (hash : BREthereumHash) : BREthereumBloomFilter :=
  let filter := bloomFilterCreateEmpty
  let filter :=
    bloomFilterSetBit filter
      (bloomFilterCreateIndex (hash.get 0) (hash.get 1))
  let filter :=
    bloomFilterSetBit filter
      (bloomFilterCreateIndex (hash.get 2) (hash.get 3))
  bloomFilterSetBit filter
    (bloomFilterCreateIndex (hash.get 4) (hash.get 5))

/- `bloomFilterOr` -/
def bloomFilterOr
    (filter1 filter2 : BREthereumBloomFilter) :
    BREthereumBloomFilter :=
  List.Vector.ofFn fun i => filter1.get i ||| filter2.get i

/-
  The two variables of a call of `bloomFilterOrInPlace`: the one
  that the caller names as `filter1`, and `filter1` itself, which
  is a value and so begins as a copy of it.
-/
structure InPlaceCall where
  named : BREthereumBloomFilter
  filter1 : BREthereumBloomFilter

/- `bloomFilterOrInPlace`, with the variables on return -/
def bloomFilterOrInPlace
    (call : InPlaceCall)
    (filter2 : BREthereumBloomFilter) : InPlaceCall :=
  { call with
    filter1 :=
      List.Vector.ofFn fun i =>
        call.filter1.get i ||| filter2.get i }

/- `bloomFilterEqual` -/
def bloomFilterEqual
    (filter1 filter2 : BREthereumBloomFilter) : Bool :=
  decide (filter1 = filter2)

/- `bloomFilterMatch` -/
def bloomFilterMatch
    (filter other : BREthereumBloomFilter) : Bool :=
  bloomFilterEqual filter (bloomFilterOr filter other)

theorem hasBit_bloomFilterOr
    (filter1 filter2 : BREthereumBloomFilter)
    (index : Index) :
    hasBit (bloomFilterOr filter1 filter2) index =
      (hasBit filter1 index || hasBit filter2 index) := by
  rw [hasBit, bloomFilterOr, List.Vector.get_ofFn,
    UInt8.toNat_or, Nat.testBit_or]
  rfl

/- A filter matches those whose bits it has. -/
theorem bloomFilterMatch_iff
    (filter other : BREthereumBloomFilter) :
    bloomFilterMatch filter other = true ↔
      ∀ index, hasBit other index = true →
        hasBit filter index = true := by
  rw [bloomFilterMatch, bloomFilterEqual, decide_eq_true_iff]
  constructor
  · intro hEq index hBit
    rw [hEq, hasBit_bloomFilterOr, hBit, Bool.or_true]
  · intro hBits
    apply eq_of_hasBit
    intro index
    rw [hasBit_bloomFilterOr]
    cases hOther : hasBit other index with
    | false => rw [Bool.or_false]
    | true => rw [hBits index hOther, Bool.or_true]

/-
  The numbers that the yellow paper takes from a hash: the low
  eleven bits of each of the first three pairs of bytes.
-/
def yellowBits (hash : BREthereumHash) : List Nat :=
  [((hash.get 0).toNat * 256 + (hash.get 1).toNat) % 2048,
    ((hash.get 2).toNat * 256 + (hash.get 3).toNat) % 2048,
    ((hash.get 4).toNat * 256 + (hash.get 5).toNat) % 2048]

theorem bloomFilterCreateIndex_val (highByte lowByte : UInt8) :
    (bloomFilterCreateIndex highByte lowByte).val =
      (highByte.toNat * 256 + lowByte.toNat) % 2048 := by
  have hPair :
      (highByte.toNat <<< 8) ||| lowByte.toNat =
        highByte.toNat * 256 + lowByte.toNat := by
    rw [← Nat.shiftLeft_add_eq_or_of_lt lowByte.toNat_lt,
      Nat.shiftLeft_eq]
  change ((highByte.toNat <<< 8) ||| lowByte.toNat) &&&
    (2 ^ 11 - 1) = _
  rw [hPair, Nat.and_two_pow_sub_one_eq_mod]

theorem hasBit_bloomFilterCreateHash
    (hash : BREthereumHash)
    (index : Index) :
    hasBit (bloomFilterCreateHash hash) index = true ↔
      index.val ∈ yellowBits hash := by
  unfold bloomFilterCreateHash yellowBits
  simp only [hasBit_bloomFilterSetBit,
    hasBit_bloomFilterCreateEmpty, Bool.false_or,
    Bool.or_eq_true, decide_eq_true_eq, Fin.ext_iff,
    bloomFilterCreateIndex_val, List.mem_cons,
    List.not_mem_nil, or_false, or_assoc]

------------------------------------------------------------
-- Addresses and Topics
------------------------------------------------------------

section

/- `BRKeccak256`, as `hashCreateFromData` applies it -/
variable (keccak : List UInt8 → BREthereumHash)

/- `bloomFilterCreateData` -/
def bloomFilterCreateData
    (data : List UInt8) : BREthereumBloomFilter :=
  bloomFilterCreateHash (keccak data)

/- `bloomFilterCreateAddress` -/
def bloomFilterCreateAddress
    (address : BREthereumAddressRaw) : BREthereumBloomFilter :=
  bloomFilterCreateHash (keccak address.toList)

/- `logTopicCreateAddress` -/
def logTopicCreateAddress
    (raw : BREthereumAddressRaw) : BREthereumLogTopic :=
  ⟨List.replicate (32 - 20) 0 ++ raw.toList, by
    rw [List.length_append, List.length_replicate,
      raw.toList_length]⟩

/- `logTopicGetBloomFilter` -/
def logTopicGetBloomFilter
    (topic : BREthereumLogTopic) : BREthereumBloomFilter :=
  bloomFilterCreateData keccak topic.toList

/- `logTopicGetBloomFilterAddress` -/
def logTopicGetBloomFilterAddress
    (address : BREthereumAddressRaw) : BREthereumBloomFilter :=
  logTopicGetBloomFilter keccak (logTopicCreateAddress address)

/- What a filter is made of. -/
inductive Element where
  | ofAddress (address : BREthereumAddressRaw)
  | ofTopic (topic : BREthereumLogTopic)
  | ofAddressTopic (address : BREthereumAddressRaw)

/- The filter of one address or topic. -/
def Element.filter : Element → BREthereumBloomFilter
  | .ofAddress address => bloomFilterCreateAddress keccak address
  | .ofTopic topic => logTopicGetBloomFilter keccak topic
  | .ofAddressTopic address =>
      logTopicGetBloomFilterAddress keccak address

/- The bytes of an address or topic that are hashed. -/
def Element.data : Element → List UInt8
  | .ofAddress address => address.toList
  | .ofTopic topic => topic.toList
  | .ofAddressTopic address =>
      List.replicate 12 0 ++ address.toList

/- Each element sets its three bits. -/
theorem hasBit_filter
    (element : Element)
    (index : Index) :
    hasBit (element.filter keccak) index = true ↔
      index.val ∈ yellowBits (keccak element.data) := by
  cases element <;>
    exact hasBit_bloomFilterCreateHash _ index

theorem exists_hasBit_filter (element : Element) :
    ∃ index, hasBit (element.filter keccak) index = true := by
  let hash := keccak element.data
  have hIndex :
      ((hash.get 0).toNat * 256 + (hash.get 1).toNat) % 2048 <
        ETHEREUM_BLOOM_FILTER_BITS :=
    Nat.mod_lt _ (by decide)
  refine ⟨⟨_, hIndex⟩, (hasBit_filter keccak element _).mpr ?_⟩
  exact List.mem_cons_self

------------------------------------------------------------
-- Accumulation
------------------------------------------------------------

/- The two ways to put a filter to those before. -/
inductive Route where
  | or
  | orInPlace
deriving DecidableEq

/- One filter more in the variable of the caller. -/
def Route.put
    (filter filter2 : BREthereumBloomFilter) :
    Route → BREthereumBloomFilter
  | .or => bloomFilterOr filter filter2
  | .orInPlace =>
      (bloomFilterOrInPlace ⟨filter, filter⟩ filter2).named

/- The filter of some elements, from the empty one on. -/
def accumulated
    (route : Route)
    (elements : List Element) : BREthereumBloomFilter :=
  elements.foldl
    (fun filter element =>
      route.put filter (element.filter keccak))
    bloomFilterCreateEmpty

theorem hasBit_foldl_or
    (elements : List Element)
    (filter : BREthereumBloomFilter)
    (index : Index) :
    hasBit
        (elements.foldl
          (fun filter element =>
            Route.or.put filter (element.filter keccak))
          filter)
        index = true ↔
      hasBit filter index = true ∨
        ∃ element ∈ elements,
          hasBit (element.filter keccak) index = true := by
  induction elements generalizing filter with
  | nil => simp
  | cons element elements ih =>
      rw [List.foldl_cons, ih, Route.put, hasBit_bloomFilterOr,
        Bool.or_eq_true, List.exists_mem_cons_iff, or_assoc]

/- The bits of all elements, and no others. -/
theorem hasBit_accumulated
    (elements : List Element)
    (index : Index) :
    hasBit (accumulated keccak .or elements) index = true ↔
      ∃ element ∈ elements,
        index.val ∈ yellowBits (keccak element.data) := by
  rw [accumulated, hasBit_foldl_or,
    hasBit_bloomFilterCreateEmpty]
  simp only [Bool.false_eq_true, false_or, hasBit_filter]

/- What the call writes is gone when it returns. -/
theorem accumulated_orInPlace (elements : List Element) :
    accumulated keccak .orInPlace elements =
      bloomFilterCreateEmpty := by
  unfold accumulated
  induction elements with
  | nil => rfl
  | cons element elements ih => exact ih

/-
  What a wallet relies on when it looks for its addresses in
  the accumulated filter.
-/
structure Accumulates
    (route : Route)
    (elements : List Element) : Prop where
  finds :
    ∀ element ∈ elements,
      bloomFilterMatch (accumulated keccak route elements)
        (element.filter keccak) = true
  order :
    ∀ {other : List Element}, elements.Perm other →
      accumulated keccak route other =
        accumulated keccak route elements
  bits :
    ∀ element ∈ elements, ∀ index,
      hasBit (element.filter keccak) index = true ↔
        index.val ∈ yellowBits (keccak element.data)
  matching :
    ∀ filter other, bloomFilterMatch filter other = true ↔
      ∀ index, hasBit other index = true →
        hasBit filter index = true

theorem accumulates_or (elements : List Element) :
    Accumulates keccak .or elements where
  finds := by
    intro element hElement
    rw [bloomFilterMatch_iff]
    intro index hBit
    exact
      (hasBit_accumulated keccak elements index).mpr
        ⟨element, hElement,
          (hasBit_filter keccak element index).mp hBit⟩
  order := by
    intro other hPerm
    apply eq_of_hasBit
    intro index
    rw [Bool.eq_iff_iff, hasBit_accumulated,
      hasBit_accumulated]
    simp only [hPerm.mem_iff]
  bits := fun element _ index =>
    hasBit_filter keccak element index
  matching := bloomFilterMatch_iff

/- The filter of the second route has no bit to find. -/
theorem not_finds_orInPlace
    {elements : List Element}
    (hSome : elements ≠ []) :
    ¬ Accumulates keccak .orInPlace elements := by
  intro hAccumulates
  rcases List.exists_mem_of_ne_nil elements hSome with
    ⟨element, hElement⟩
  rcases exists_hasBit_filter keccak element with ⟨index, hBit⟩
  have hFinds := hAccumulates.finds element hElement
  rw [accumulated_orInPlace, bloomFilterMatch_iff] at hFinds
  have hEmpty := hFinds index hBit
  rw [hasBit_bloomFilterCreateEmpty] at hEmpty
  cases hEmpty

theorem accumulates_nil (route : Route) :
    Accumulates keccak route [] where
  finds := fun _ hElement =>
    absurd hElement List.not_mem_nil
  order := by
    intro other hPerm
    rw [hPerm.nil_eq]
  bits := fun element _ index =>
    hasBit_filter keccak element index
  matching := bloomFilterMatch_iff

/-
  Filters add up on the way over `bloomFilterOr`; the other way
  gathers nothing.
-/
theorem accumulates_iff
    (route : Route)
    (elements : List Element) :
    Accumulates keccak route elements ↔
      route = .or ∨ elements = [] := by
  constructor
  · intro hAccumulates
    by_contra hNeither
    rw [not_or] at hNeither
    cases route with
    | or => exact hNeither.1 rfl
    | orInPlace =>
        exact
          not_finds_orInPlace keccak hNeither.2 hAccumulates
  · rintro (rfl | rfl)
    · exact accumulates_or keccak elements
    · exact accumulates_nil keccak route

end

/- One address, put in place. -/
theorem not_accumulates :
    ¬ ∀ keccak route elements,
      Accumulates keccak route elements := by
  intro hAll
  exact
    not_finds_orInPlace (fun _ => List.Vector.replicate 32 0)
      (List.cons_ne_nil
        (.ofAddress (List.Vector.replicate 20 0)) [])
      (hAll _ _ _)

end BloomFilter

end PlusWallet
