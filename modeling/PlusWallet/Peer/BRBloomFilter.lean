import PlusWallet.Library.BitField
import PlusWallet.Library.Run
import PlusWallet.Transaction.Bounds
import PlusWallet.Transaction.RoundTrip

/-
  The bloom filters of `BRBloomFilter.c`: a set of byte strings
  in which none that was inserted is missed.  The sizes that
  `BRBloomFilterNew` computes with floating point numbers are
  given; the hash is `BRMurmur3_32` of `BRCrypto.c`.

  A query or an insertion whose result is `none` divides by
  zero.

  Main declarations:
    * `BRMurmur3_32`
    * `BRBloomFilter`, `new`, `parse`, `serialize`
    * `containsData`, `insertData`
    * `containsData_eq`, `insertData_eq`
    * `parse_serialize_filter`
    * `BRBloomFilter.Works`, `works_iff`
-/

namespace PlusWallet

open Bytes BitField Run

------------------------------------------------------------
-- MurmurHash3
------------------------------------------------------------

/- `rol32` -/
def rol32 (a b : UInt32) : UInt32 :=
  (a <<< b) ||| (a >>> (32 - b))

/- `fmix32` -/
def fmix32 (h : UInt32) : UInt32 :=
  let h := (h ^^^ (h >>> 16)) * 0x85ebca6b
  let h := (h ^^^ (h >>> 13)) * 0xc2b2ae35
  h ^^^ (h >>> 16)

/- `C1` -/
def murmurC1 : UInt32 := 0xcc9e2d51

/- `C2` -/
def murmurC2 : UInt32 := 0x1b873593

/- The loop over the words, and the bytes behind them. -/
def murmurLoop (h : UInt32) : List UInt8 → UInt32
  | a :: b :: c :: d :: data =>
      let k := UInt32.ofNat (ofLittleEndian [a, b, c, d]) *
        murmurC1
      let h := h ^^^ (rol32 k 15 * murmurC2)
      murmurLoop (rol32 h 13 * 5 + 0xe6546b64) data
  | [] => h
  | rest =>
      let k := UInt32.ofNat (ofLittleEndian rest) * murmurC1
      h ^^^ (rol32 k 15 * murmurC2)

/- `BRMurmur3_32` -/
def BRMurmur3_32 (data : List UInt8) (seed : UInt32) : UInt32 :=
  fmix32 (murmurLoop seed data ^^^ UInt32.ofNat data.length)

------------------------------------------------------------
-- Filters
------------------------------------------------------------

/-
  `BRBloomFilter`; its length is the length of the bytes that
  are allocated for it.
-/
structure BRBloomFilter where
  filter : List UInt8
  hashFuncs : UInt32
  elemCount : UInt64
  tweak : UInt32
  flags : UInt8
deriving DecidableEq

namespace BRBloomFilter

def BLOOM_MAX_FILTER_LENGTH : Nat := 36000

def BLOOM_MAX_HASH_FUNCS : UInt32 := 50

/-
  `BRBloomFilterNew`, from the length and the number of hash
  functions for its rate and its number of elements
-/
def new
    (length : Nat)
    (hashFuncs tweak : UInt32)
    (flags : UInt8) : BRBloomFilter :=
  let length := min length BLOOM_MAX_FILTER_LENGTH
  let length := if length < 1 then 1 else length
  { filter := List.replicate length 0
    hashFuncs :=
      if hashFuncs > BLOOM_MAX_HASH_FUNCS then
        BLOOM_MAX_HASH_FUNCS
      else hashFuncs
    elemCount := 0
    tweak := tweak
    flags := flags }

/-
  `BRBloomFilterParse`, `none` inside for `NULL`, and outside
  for a read beyond the buffer
-/
def parse
    (buf : List UInt8) : Option (Option BRBloomFilter) := do
  let (length, len) := varInt buf
  let off := len
  let filter :=
    if length ≤ BLOOM_MAX_FILTER_LENGTH ∧
        addSize off length ≤ buf.length then
      slice buf off length
    else none
  let off := addSize off length
  let hashFuncs ← readUInt32 buf off
  let off := addSize off 4
  let tweak ← readUInt32 buf off
  let off := addSize off 4
  let flags ← readField buf off 1
  some
    (filter.map fun filter =>
      { filter := filter
        hashFuncs := hashFuncs
        elemCount := 0
        tweak := tweak
        flags := flags.headD 0 })

/- The bytes of a filter. -/
def serialized (filter : BRBloomFilter) : List UInt8 :=
  varIntBytes filter.filter.length ++ (filter.filter ++
    (littleEndian 4 filter.hashFuncs.toNat ++
      (littleEndian 4 filter.tweak.toNat ++ [filter.flags])))

/- `BRBloomFilterSerialize` writes all of the bytes or none. -/
def serialize (filter : BRBloomFilter) : Writer :=
  (Writer.field filter.serialized).whole

/- `_BRBloomFilterHash` -/
def hash
    (filter : BRBloomFilter)
    (data : List UInt8)
    (hashNum : UInt32) : Option Nat :=
  if filter.filter.length * 8 = 0 then none
  else
    some
      ((BRMurmur3_32 data
          (hashNum * 0xfba4c795 + filter.tweak)).toNat %
        (filter.filter.length * 8))

/- The loop of `BRBloomFilterContainsData` over the rest. -/
def containsLoop
    (filter : BRBloomFilter)
    (data : List UInt8) : Nat → UInt32 → Option Bool
  | 0, _ => some true
  | rest + 1, i => do
      let idx ← filter.hash data i
      let byte ← filter.filter[idx >>> 3]?
      if byte &&& UInt8.ofNat (1 <<< (7 &&& idx)) = 0 then
        some false
      else containsLoop filter data rest (i + 1)

/- `BRBloomFilterContainsData`, with `none` for `NULL` data -/
def containsData
    (filter : BRBloomFilter)
    (data : Option (List UInt8)) : Option Bool :=
  match data with
  | none => some false
  | some data =>
      filter.containsLoop data filter.hashFuncs.toNat 0

/- The loop of `BRBloomFilterInsertData` over the rest. -/
def insertLoop
    (data : List UInt8) :
    Nat → UInt32 → BRBloomFilter → Option BRBloomFilter
  | 0, _, filter => some filter
  | rest + 1, i, filter => do
      let idx ← filter.hash data i
      let byte ← filter.filter[idx >>> 3]?
      insertLoop data rest (i + 1)
        { filter with
          filter :=
            filter.filter.set (idx >>> 3)
              (byte ||| UInt8.ofNat (1 <<< (7 &&& idx))) }

/- `BRBloomFilterInsertData`, with `none` for `NULL` data -/
def insertData
    (filter : BRBloomFilter)
    (data : Option (List UInt8)) : Option BRBloomFilter :=
  match data with
  | none => some filter
  | some data => do
      let filter ←
        insertLoop data filter.hashFuncs.toNat 0 filter
      some { filter with elemCount := filter.elemCount + 1 }

------------------------------------------------------------
-- Positions
------------------------------------------------------------

/- The bit that a hash function chooses. -/
def position
    (filter : BRBloomFilter)
    (data : List UInt8)
    (i : UInt32) : Nat :=
  (BRMurmur3_32 data (i * 0xfba4c795 + filter.tweak)).toNat %
    (filter.filter.length * 8)

/- The bits that the hash functions from one on choose. -/
def positionsFrom
    (filter : BRBloomFilter)
    (data : List UInt8) : Nat → UInt32 → List Nat
  | 0, _ => []
  | rest + 1, i =>
      filter.position data i ::
        positionsFrom filter data rest (i + 1)

/- The bits of a byte string. -/
def positions
    (filter : BRBloomFilter)
    (data : List UInt8) : List Nat :=
  filter.positionsFrom data filter.hashFuncs.toNat 0

theorem position_lt
    {filter : BRBloomFilter}
    (hLength : 0 < filter.filter.length)
    (data : List UInt8)
    (i : UInt32) :
    filter.position data i < 8 * filter.filter.length := by
  rw [position, Nat.mul_comm 8]
  exact Nat.mod_lt _ (by omega)

theorem positionsFrom_lt
    {filter : BRBloomFilter}
    (hLength : 0 < filter.filter.length)
    {data : List UInt8}
    {rest : Nat}
    {i : UInt32} :
    ∀ k ∈ filter.positionsFrom data rest i,
      k < 8 * filter.filter.length := by
  induction rest generalizing i with
  | zero => simp [positionsFrom]
  | succ rest ih =>
      rw [positionsFrom, List.forall_mem_cons]
      exact ⟨position_lt hLength data i, ih⟩

/- Filters of one shape choose the same bits. -/
theorem positionsFrom_congr
    {filter other : BRBloomFilter}
    (hLength : other.filter.length = filter.filter.length)
    (hTweak : other.tweak = filter.tweak)
    (data : List UInt8)
    (rest : Nat)
    (i : UInt32) :
    other.positionsFrom data rest i =
      filter.positionsFrom data rest i := by
  induction rest generalizing i with
  | zero => rfl
  | succ rest ih =>
      rw [positionsFrom, positionsFrom, position, position,
        hLength, hTweak, ih]

theorem hash_eq
    {filter : BRBloomFilter}
    (hLength : 0 < filter.filter.length)
    (data : List UInt8)
    (i : UInt32) :
    filter.hash data i = some (filter.position data i) := by
  rw [hash, if_neg (by omega), position]

/- The place and the bit that the loops compute. -/
theorem mask_eq (k : Nat) :
    UInt8.ofNat (1 <<< (7 &&& k)) = mask k := by
  rw [mask, Nat.and_comm]
  congr 2
  exact Nat.and_two_pow_sub_one_eq_mod k 3

theorem byte_eq
    {bytes : List UInt8}
    {k : Nat}
    (hInside : k < 8 * bytes.length) :
    bytes[k >>> 3]? = some (bytes.getD (k / 8) 0) := by
  have hByte : k / 8 < bytes.length := by omega
  rw [Nat.shiftRight_eq_div_pow]
  change bytes[k / 8]? = _
  rw [List.getElem?_eq_getElem hByte,
    List.getD_eq_getElem _ _ hByte]

theorem containsLoop_eq
    {filter : BRBloomFilter}
    (hLength : 0 < filter.filter.length)
    (data : List UInt8)
    (rest : Nat)
    (i : UInt32) :
    filter.containsLoop data rest i =
      some
        ((filter.positionsFrom data rest i).all
          (hasBit filter.filter)) := by
  induction rest generalizing i with
  | zero => rfl
  | succ rest ih =>
      have hInside := position_lt hLength data i
      rw [containsLoop, hash_eq hLength, positionsFrom,
        List.all_cons, Option.bind_eq_bind, Option.bind_some,
        byte_eq hInside, Option.bind_eq_bind, Option.bind_some,
        mask_eq, ih]
      by_cases hSet :
          hasBit filter.filter (filter.position data i) = true
      · rw [hSet, Bool.true_and, if_neg]
        simpa [hasBit] using hSet
      · rw [Bool.not_eq_true] at hSet
        rw [hSet, Bool.false_and, if_pos]
        simpa [hasBit] using hSet

theorem insertLoop_eq
    {filter : BRBloomFilter}
    (hLength : 0 < filter.filter.length)
    (data : List UInt8)
    (rest : Nat)
    (i : UInt32) :
    insertLoop data rest i filter =
      some
        { filter with
          filter :=
            (filter.positionsFrom data rest i).foldl setBit
              filter.filter } := by
  induction rest generalizing i filter with
  | zero => rfl
  | succ rest ih =>
      have hInside := position_lt hLength data i
      have hSame :=
        @positionsFrom_congr filter
          { filter with
            filter :=
              setBit filter.filter (filter.position data i) }
          (length_setBit _ _) rfl data rest (i + 1)
      rw [insertLoop, hash_eq hLength, positionsFrom,
        List.foldl_cons, Option.bind_eq_bind, Option.bind_some,
        byte_eq hInside, Option.bind_eq_bind, Option.bind_some,
        mask_eq, Nat.shiftRight_eq_div_pow]
      change
        insertLoop data rest (i + 1)
            { filter with
              filter :=
                setBit filter.filter
                  (filter.position data i) } = _
      rw [ih (by simpa using hLength), hSame]

/- What a query looks at. -/
theorem containsData_eq
    {filter : BRBloomFilter}
    (hLength : 0 < filter.filter.length)
    (data : List UInt8) :
    filter.containsData (some data) =
      some
        ((filter.positions data).all
          (hasBit filter.filter)) :=
  containsLoop_eq hLength data _ _

/- What an insertion changes. -/
theorem insertData_eq
    {filter : BRBloomFilter}
    (hLength : 0 < filter.filter.length)
    (data : List UInt8) :
    filter.insertData (some data) =
      some
        { filter with
          filter :=
            (filter.positions data).foldl setBit filter.filter
          elemCount := filter.elemCount + 1 } := by
  rw [insertData]
  simp only [insertLoop_eq hLength]
  rfl

------------------------------------------------------------
-- Sequences of Insertions
------------------------------------------------------------

/- Insert byte strings one after the other. -/
def insertAll
    (filter : BRBloomFilter)
    (inserted : List (List UInt8)) : Option BRBloomFilter :=
  run (fun filter data => filter.insertData (some data)) filter
    inserted

/- What insertions leave as it is, and the bits they keep. -/
structure Extends (filter after : BRBloomFilter) : Prop where
  length : after.filter.length = filter.filter.length
  hashFuncs : after.hashFuncs = filter.hashFuncs
  tweak : after.tweak = filter.tweak
  bits :
    ∀ k, hasBit filter.filter k = true →
      hasBit after.filter k = true

theorem Extends.refl (filter : BRBloomFilter) :
    Extends filter filter :=
  ⟨rfl, rfl, rfl, fun _ hBit => hBit⟩

theorem Extends.trans
    {first second third : BRBloomFilter}
    (hFirst : Extends first second)
    (hSecond : Extends second third) :
    Extends first third where
  length := hSecond.length.trans hFirst.length
  hashFuncs := hSecond.hashFuncs.trans hFirst.hashFuncs
  tweak := hSecond.tweak.trans hFirst.tweak
  bits := fun k hBit => hSecond.bits k (hFirst.bits k hBit)

theorem Extends.positions_eq
    {filter after : BRBloomFilter}
    (hExtends : Extends filter after)
    (data : List UInt8) :
    after.positions data = filter.positions data := by
  rw [positions, positions, hExtends.hashFuncs]
  exact
    positionsFrom_congr hExtends.length hExtends.tweak data _ _

/- An insertion sets the bits of its data. -/
theorem exists_insertData
    {filter : BRBloomFilter}
    (hLength : 0 < filter.filter.length)
    (data : List UInt8) :
    ∃ after,
      filter.insertData (some data) = some after ∧
        Extends filter after ∧
        ∀ k ∈ filter.positions data,
          hasBit after.filter k = true := by
  have hInside :
      ∀ k ∈ filter.positions data,
        k < 8 * filter.filter.length :=
    positionsFrom_lt hLength
  refine ⟨_, insertData_eq hLength data, ?_, ?_⟩
  · refine ⟨length_setBits _ _, rfl, rfl, ?_⟩
    intro k hBit
    rw [hasBit_setBits hInside, hBit, Bool.true_or]
  · intro k hk
    rw [hasBit_setBits hInside, decide_eq_true hk,
      Bool.or_true]

/- All that was inserted is found afterwards. -/
theorem exists_insertAll
    {filter : BRBloomFilter}
    (hLength : 0 < filter.filter.length)
    (inserted : List (List UInt8)) :
    ∃ after,
      filter.insertAll inserted = some after ∧
        Extends filter after ∧
        ∀ data ∈ inserted,
          after.containsData (some data) = some true := by
  induction inserted generalizing filter with
  | nil => exact ⟨filter, rfl, Extends.refl filter, by simp⟩
  | cons data inserted ih =>
      rcases exists_insertData hLength data with
        ⟨next, hNext, hExtends, hBits⟩
      have hNextLength : 0 < next.filter.length := by
        rwa [hExtends.length]
      rcases ih hNextLength with
        ⟨after, hAfter, hMore, hFound⟩
      refine
        ⟨after, ?_, hExtends.trans hMore,
          List.forall_mem_cons.mpr ⟨?_, hFound⟩⟩
      · rw [insertAll, run_cons, hNext]
        exact hAfter
      · have hAfterLength : 0 < after.filter.length := by
          rwa [hMore.length]
        rw [containsData_eq hAfterLength,
          hMore.positions_eq, hExtends.positions_eq,
          Option.some_inj, List.all_eq_true]
        intro k hk
        exact hMore.bits k (hBits k hk)

/- With no hash function a filter matches everything. -/
theorem exists_insertAll_of_no_hash
    {filter : BRBloomFilter}
    (hNone : filter.hashFuncs = 0)
    (inserted : List (List UInt8)) :
    ∃ after,
      filter.insertAll inserted = some after ∧
        Extends filter after := by
  induction inserted generalizing filter with
  | nil => exact ⟨filter, rfl, Extends.refl filter⟩
  | cons data inserted ih =>
      have hInsert :
          filter.insertData (some data) =
            some
              { filter with
                elemCount := filter.elemCount + 1 } := by
        have hZero : filter.hashFuncs.toNat = 0 := by
          rw [hNone]
          rfl
        rw [insertData, hZero]
        rfl
      let next : BRBloomFilter :=
        { filter with elemCount := filter.elemCount + 1 }
      have hSame : Extends filter next :=
        ⟨rfl, rfl, rfl, fun _ hBit => hBit⟩
      rcases @ih next hNone with ⟨after, hAfter, hExtends⟩
      refine ⟨after, ?_, ?_⟩
      · rw [insertAll, run_cons, hInsert]
        exact hAfter
      · exact hSame.trans hExtends

------------------------------------------------------------
-- Round Trip
------------------------------------------------------------

theorem writes_serialize (filter : BRBloomFilter) :
    Writes filter.serialize filter.serialized :=
  (Writes.field _).whole

/- A filter is read back, but for its count of elements. -/
theorem parse_serialize_filter
    {filter : BRBloomFilter}
    (hLength :
      filter.filter.length ≤ BLOOM_MAX_FILTER_LENGTH) :
    parse filter.serialize.bytes =
      some (some { filter with elemCount := 0 }) := by
  rw [(writes_serialize filter).bytes_eq]
  have hFits : filter.filter.length < 2 ^ 64 := by
    rw [BLOOM_MAX_FILTER_LENGTH] at hLength
    omega
  have hWhole := Stands.whole filter.serialized
  have hVarInt :
      varInt filter.serialized =
        (filter.filter.length,
          (varIntBytes filter.filter.length).length) := by
    rw [serialized, varInt_varIntBytes hFits,
      length_varIntBytes]
  have hHeader :
      (varIntBytes filter.filter.length).length ≤ 9 := by
    have hSize := varInt_snd_le filter.serialized
    rwa [hVarInt] at hSize
  have hBuf : filter.serialized.length < 2 ^ 64 := by
    rw [BLOOM_MAX_FILTER_LENGTH] at hLength
    simp only [serialized, List.length_append,
      length_littleEndian, List.length_singleton]
    omega
  rw [serialized] at hWhole
  have hBytes := hWhole.next
  have hHash := hBytes.next
  have hTweak := hHash.next
  have hFlags := hTweak.next
  rw [← serialized, Nat.zero_add]
    at hBytes hHash hTweak hFlags
  rw [length_littleEndian] at hTweak hFlags
  rw [length_littleEndian] at hFlags
  have hEnd := hFlags.le_length
  rw [List.length_singleton] at hEnd
  have hFlagsField := readField_eq hBuf hFlags
  rw [List.length_singleton] at hFlagsField
  rw [parse, hVarInt]
  dsimp only
  rw [addSize_eq (by omega), if_pos ⟨hLength, by omega⟩,
    hBytes.front.slice_eq, readUInt32_eq hBuf hHash.front,
    Option.bind_eq_bind, Option.bind_some,
    addSize_eq (by omega), readUInt32_eq hBuf hTweak.front,
    Option.bind_eq_bind, Option.bind_some,
    addSize_eq (by omega), hFlagsField]
  rfl

------------------------------------------------------------
-- Filters that Work
------------------------------------------------------------

/-
  After any insertions all that was inserted is found, every
  query has an answer, and the filter that is written and read
  back gives the same ones.
-/
def Works (filter : BRBloomFilter) : Prop :=
  ∀ inserted : List (List UInt8),
    ∃ after,
      filter.insertAll inserted = some after ∧
      (∀ data ∈ inserted,
        after.containsData (some data) = some true) ∧
      (∀ data, ∃ answer,
        after.containsData data = some answer) ∧
      ∃ back,
        parse after.serialize.bytes = some (some back) ∧
        ∀ data,
          back.containsData data = after.containsData data

theorem containsData_of_no_hash
    {filter : BRBloomFilter}
    (hNone : filter.hashFuncs = 0)
    (data : List UInt8) :
    filter.containsData (some data) = some true := by
  have hZero : filter.hashFuncs.toNat = 0 := by
    rw [hNone]
    rfl
  rw [containsData, hZero]
  rfl

theorem containsLoop_congr
    (filter : BRBloomFilter)
    (elemCount : UInt64)
    (data : List UInt8)
    (rest : Nat)
    (i : UInt32) :
    containsLoop { filter with elemCount := elemCount } data
        rest i =
      filter.containsLoop data rest i := by
  induction rest generalizing i with
  | zero => rfl
  | succ rest ih =>
      simp only [containsLoop, ih]
      rfl

/- A query does not read the count of elements. -/
theorem containsData_congr
    (filter : BRBloomFilter)
    (elemCount : UInt64)
    (data : Option (List UInt8)) :
    containsData { filter with elemCount := elemCount } data =
      filter.containsData data := by
  cases data with
  | none => rfl
  | some data =>
      exact containsLoop_congr filter elemCount data _ _

/- Only a filter without a bit for its hashes fails. -/
theorem works_iff_of_length_le
    {filter : BRBloomFilter}
    (hMax : filter.filter.length ≤ BLOOM_MAX_FILTER_LENGTH) :
    filter.Works ↔
      (filter.filter.length = 0 → filter.hashFuncs = 0) := by
  have hBack :
      ∀ after, Extends filter after →
        ∃ back,
          parse after.serialize.bytes = some (some back) ∧
          ∀ data,
            back.containsData data =
              after.containsData data := by
    intro after hExtends
    exact
      ⟨_, parse_serialize_filter (by rwa [hExtends.length]),
        containsData_congr after 0⟩
  constructor
  · intro hWorks hEmpty
    rcases hWorks [] with ⟨after, hAfter, -, hAnswers, -⟩
    cases hAfter
    rcases hAnswers (some []) with ⟨answer, hAnswer⟩
    by_contra hSome
    have hNat : filter.hashFuncs.toNat ≠ 0 := fun hZero =>
      hSome (UInt32.toNat_inj.mp hZero)
    rcases Nat.exists_eq_succ_of_ne_zero hNat with
      ⟨rest, hRest⟩
    rw [containsData, hRest, containsLoop, hash,
      if_pos (by rw [hEmpty])] at hAnswer
    cases hAnswer
  · intro hHashes inserted
    by_cases hEmpty : filter.filter.length = 0
    · have hNone := hHashes hEmpty
      rcases exists_insertAll_of_no_hash hNone inserted with
        ⟨after, hAfter, hExtends⟩
      have hAfterNone : after.hashFuncs = 0 := by
        rw [hExtends.hashFuncs, hNone]
      refine
        ⟨after, hAfter, ?_, ?_, hBack after hExtends⟩
      · intro data _
        exact containsData_of_no_hash hAfterNone data
      · rintro (_ | data)
        · exact ⟨false, rfl⟩
        · exact
            ⟨true, containsData_of_no_hash hAfterNone data⟩
    · rcases
          exists_insertAll (Nat.pos_of_ne_zero hEmpty)
            inserted with
        ⟨after, hAfter, hExtends, hFound⟩
      refine
        ⟨after, hAfter, hFound, ?_, hBack after hExtends⟩
      rintro (_ | data)
      · exact ⟨false, rfl⟩
      · refine ⟨_, containsData_eq ?_ data⟩
        rw [hExtends.length]
        exact Nat.pos_of_ne_zero hEmpty

------------------------------------------------------------
-- Where Filters Come From
------------------------------------------------------------

/- What a filter is made of. -/
inductive Source where
  | new
      (length : Nat)
      (hashFuncs tweak : UInt32)
      (flags : UInt8)
  | parse (buf : List UInt8)

/- The filter that is made, if any. -/
def Source.made : Source → Option BRBloomFilter
  | .new length hashFuncs tweak flags =>
      some (BRBloomFilter.new length hashFuncs tweak flags)
  | .parse buf => (BRBloomFilter.parse buf).join

/-
  A buffer does not declare a filter of no bytes that has hash
  functions, in the four bytes behind its length.
-/
def Source.HasBits : Source → Prop
  | .new _ _ _ _ => True
  | .parse buf =>
      (varInt buf).1 = 0 →
        readUInt32 buf (varInt buf).2 = some 0

theorem parse_eq_some
    {buf : List UInt8}
    {filter : BRBloomFilter}
    (hParse : parse buf = some (some filter)) :
    filter.filter.length = (varInt buf).1 ∧
      filter.filter.length ≤ BLOOM_MAX_FILTER_LENGTH ∧
      readUInt32 buf (addSize (varInt buf).2 (varInt buf).1) =
        some filter.hashFuncs := by
  rw [parse] at hParse
  simp only [Option.bind_eq_bind, Option.bind_eq_some_iff,
    Option.some_inj, Option.map_eq_some_iff] at hParse
  rcases hParse with
    ⟨hashFuncs, hHash, tweak, -, flags, -, bytes, hBytes,
      hSame⟩
  rw [← hSame]
  split_ifs at hBytes with hFits
  rw [slice] at hBytes
  split_ifs at hBytes with hInside
  cases hBytes
  have hLength :
      ((buf.drop (varInt buf).2).take (varInt buf).1).length =
        (varInt buf).1 := by
    rw [List.length_take, List.length_drop]
    omega
  dsimp only
  rw [hLength]
  exact ⟨rfl, hFits.1, hHash⟩

theorem length_new_bounds
    (length : Nat)
    (hashFuncs tweak : UInt32)
    (flags : UInt8) :
    0 < (new length hashFuncs tweak flags).filter.length ∧
      (new length hashFuncs tweak flags).filter.length ≤
        BLOOM_MAX_FILTER_LENGTH := by
  rw [new]
  dsimp only
  rw [List.length_replicate, BLOOM_MAX_FILTER_LENGTH]
  by_cases hNone : min length 36000 < 1
  · rw [if_pos hNone]
    decide
  · rw [if_neg hNone]
    omega

/-
  A filter works exactly if it is made by `BRBloomFilterNew`,
  or from a buffer that does not declare hash functions of a
  filter that has no bytes.
-/
theorem works_iff
    {source : Source}
    {filter : BRBloomFilter}
    (hMade : source.made = some filter) :
    filter.Works ↔ source.HasBits := by
  cases source with
  | new length hashFuncs tweak flags =>
      cases hMade
      have hLength :=
        length_new_bounds length hashFuncs tweak flags
      rw [works_iff_of_length_le hLength.2]
      refine iff_of_true ?_ trivial
      intro hEmpty
      omega
  | parse buf =>
      rw [Source.made, Option.join_eq_some_iff] at hMade
      rcases parse_eq_some hMade with ⟨hLength, hMax, hHash⟩
      rw [works_iff_of_length_le hMax, hLength, Source.HasBits]
      refine imp_congr_right fun hZero => ?_
      have hHeader := varInt_snd_le buf
      rw [hZero, addSize_eq (by omega), Nat.add_zero] at hHash
      rw [hHash, Option.some_inj]

/- A filter that is made anew works. -/
theorem works_new :
    (new 100 5 7 1).Works :=
  (@works_iff (.new 100 5 7 1) _ rfl).mpr trivial

/- A buffer of a filter with no bytes and one hash function. -/
theorem not_works_of_no_bytes :
    ¬ ∀ (source : Source) (filter : BRBloomFilter),
        source.made = some filter → filter.Works := by
  intro hAll
  have hWorks :=
    hAll (.parse [0, 1, 0, 0, 0])
      { filter := []
        hashFuncs := 1
        elemCount := 0
        tweak := 0
        flags := 0 } (by decide)
  rcases hWorks [] with ⟨after, hAfter, -, hAnswers, -⟩
  cases hAfter
  rcases hAnswers (some []) with ⟨answer, hAnswer⟩
  revert hAnswer
  cases answer <;> decide

end BRBloomFilter

end PlusWallet
