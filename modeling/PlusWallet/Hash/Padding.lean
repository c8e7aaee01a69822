import PlusWallet.Hash.BRCrypto
import PlusWallet.Library.Blocks
import PlusWallet.Library.ByteOrder

/-
  The block loops feed their compression function the blocks of
  the padded message.

  Main declarations:
    * `blockLoop_walk`, `blockLoop_spec`, `blockLoop_wraps`
    * `hashLoop_eq`, `spongeLoop_eq`
    * `Data`, `Feeds`
    * `feeds_iff`, `not_feeds_of_long`
-/

namespace PlusWallet

namespace Hash

open Bytes Parts Blocks

variable {Buffer : Type}
variable (compress : Buffer → List UInt8 → Buffer)

------------------------------------------------------------
-- The Loop
------------------------------------------------------------

theorem copied_of_length
    {data x : List UInt8}
    {i len : Nat}
    (hInside : i + len ≤ data.length)
    (hRoom : len ≤ x.length) :
    (copied data x i len).length = x.length := by
  rw [copied, List.length_append, length_part hInside,
    List.length_drop]
  omega

/- A whole block takes all of `x`. -/
theorem copied_whole
    {data x : List UInt8}
    {i len : Nat}
    (hLength : x.length = len) :
    copied data x i len = part data i len := by
  rw [copied, List.drop_eq_nil_of_le hLength.le,
    List.append_nil]

/- Whole blocks are compressed one after the other. -/
theorem blockLoop_walk
    {size : Nat}
    (hSize : 0 < size)
    (inclusive : Bool)
    {data : List UInt8}
    (hFits : data.length < 2 ^ 64)
    {count k : Nat}
    (hCount : k + count = data.length / size)
    (rounds : Nat)
    (buf : Buffer)
    {x : List UInt8}
    (hRoom : x.length = size) :
    ∃ last : List UInt8, last.length = size ∧
      blockLoop compress size inclusive data (rounds + count)
          buf x (k * size) =
        blockLoop compress size inclusive data rounds
          ((blocks size (data.drop (k * size))).foldl compress
            buf)
          last (data.length / size * size) := by
  induction count generalizing k buf x with
  | zero =>
      rw [Nat.add_zero] at hCount
      have hNone :
          blocks size (data.drop (k * size)) = [] := by
        have hRest := length_restOf size data
        rw [restOf, ← hCount] at hRest
        refine blocks_of_lt ?_
        rw [hRest]
        exact Nat.mod_lt _ hSize
      exact ⟨x, hRoom, by rw [hNone, hCount]; rfl⟩
  | succ count hStep =>
      have hWhole : (k + 1) * size ≤ data.length := by
        have hLe : k + 1 ≤ data.length / size := by omega
        exact (Nat.mul_le_mul_right size hLe).trans
          (Nat.div_mul_le_self _ _)
      rw [Nat.succ_mul] at hWhole
      have hNext :
          (k * size + size) % 2 ^ 64 = (k + 1) * size := by
        rw [Nat.mod_eq_of_lt (by omega), Nat.succ_mul]
      have hLen :
          (if (k + 1) * size < data.length then size
            else data.length - k * size) = size := by
        rw [Nat.succ_mul]
        split_ifs <;> omega
      have hHere :
          k * size < data.length ∨
            (inclusive = true ∧ k * size = data.length) :=
        .inl (by omega)
      have hMore : ¬(k + 1) * size > data.length := by
        rw [Nat.succ_mul]
        omega
      have hBlock :
          (part data (k * size) size).length = size :=
        length_part hWhole
      rcases hStep (k := k + 1) (by omega)
        (compress buf (part data (k * size) size)) hBlock with
        ⟨last, hLast, hLoop⟩
      refine ⟨last, hLast, ?_⟩
      have hBlocks :
          blocks size (data.drop (k * size)) =
            part data (k * size) size ::
              blocks size (data.drop ((k + 1) * size)) := by
        have hSplit :
            data.drop (k * size) =
              part data (k * size) size ++
                data.drop ((k + 1) * size) := by
          rw [part, Nat.succ_mul, ← List.drop_drop,
            List.take_append_drop]
        rw [hSplit, blocks_append hSize hBlock]
      rw [hBlocks, List.foldl_cons, ← hLoop, ← Nat.add_assoc,
        blockLoop, if_pos hHere]
      simp only [hNext, hLen]
      rw [if_pos hWhole, if_neg hMore, copied_whole hRoom]

/- The place behind the last whole block is told from the end,
   or the loop stops before it gets there. -/
def Ends
    (size : Nat)
    (inclusive : Bool)
    (data : List UInt8) : Prop :=
  data.length / size * size + size < 2 ^ 64 ∨
    (inclusive = false ∧ data.length % size = 0)

theorem blockLoop_last
    {size : Nat}
    {inclusive : Bool}
    {data : List UInt8}
    (hSize : 0 < size)
    (hEnds : Ends size inclusive data)
    (buf : Buffer)
    (x : List UInt8) :
    ∃ last : List UInt8,
      last.take (data.length % size) = restOf size data ∧
        blockLoop compress size inclusive data 1 buf x
            (data.length / size * size) =
          some (buf, last, data.length / size * size) := by
  have hDiv := Nat.div_add_mod data.length size
  rw [Nat.mul_comm] at hDiv
  have hLess := Nat.mod_lt data.length hSize
  by_cases hHere :
      data.length / size * size < data.length ∨
        (inclusive = true ∧
          data.length / size * size = data.length)
  · have hRoom :
        data.length / size * size + size < 2 ^ 64 := by
      rcases hEnds with hRoom | ⟨hExclusive, hNone⟩
      · exact hRoom
      · rcases hHere with hHere | ⟨hInclusive, -⟩
        · omega
        · rw [hExclusive] at hInclusive
          cases hInclusive
    have hNext :
        (data.length / size * size + size) % 2 ^ 64 =
          data.length / size * size + size :=
      Nat.mod_eq_of_lt hRoom
    have hLen :
        (if data.length / size * size + size < data.length
          then size
          else data.length - data.length / size * size) =
          data.length % size := by
      rw [if_neg (by omega)]
      omega
    have hInside :
        data.length / size * size + data.length % size ≤
          data.length := by
      omega
    have hRest :
        part data (data.length / size * size)
            (data.length % size) =
          restOf size data := by
      rw [part, restOf, List.take_of_length_le]
      rw [List.length_drop]
      omega
    refine ⟨copied data x (data.length / size * size)
      (data.length % size), ?_, ?_⟩
    · rw [copied, hRest, List.take_left' (length_restOf _ _)]
    · rw [blockLoop, if_pos hHere]
      simp only [hNext, hLen]
      rw [if_pos hInside, if_pos (by omega)]
  · have hZero : data.length % size = 0 := by
      by_contra hRest
      exact hHere (.inl (by omega))
    have hNone : restOf size data = [] := by
      rw [← List.length_eq_zero_iff, length_restOf, hZero]
    refine ⟨x, ?_, ?_⟩
    · rw [hZero, hNone, List.take_zero]
    · rw [blockLoop, if_neg hHere]

/- The loop feeds the whole blocks and copies the rest. -/
theorem blockLoop_spec
    {size : Nat}
    {inclusive : Bool}
    {data : List UInt8}
    (hSize : 0 < size)
    (hFits : data.length < 2 ^ 64)
    (hEnds : Ends size inclusive data)
    (buf : Buffer)
    {x : List UInt8}
    (hRoom : x.length = size) :
    ∃ last : List UInt8,
      last.take (data.length % size) = restOf size data ∧
        blockLoop compress size inclusive data
            (roundsOf size data) buf x 0 =
          some ((blocks size data).foldl compress buf, last,
            data.length / size * size) := by
  have hStart : 0 + data.length / size = data.length / size :=
    Nat.zero_add _
  rcases blockLoop_walk compress hSize inclusive
    hFits hStart 1 buf hRoom with ⟨before, -, hWalk⟩
  rcases blockLoop_last compress hSize hEnds
    ((blocks size data).foldl compress buf) before with
    ⟨last, hLast, hLoop⟩
  refine ⟨last, hLast, ?_⟩
  rw [Nat.zero_mul, List.drop_zero, hLoop] at hWalk
  rw [roundsOf, Nat.add_comm]
  exact hWalk

/- Where the place wraps around, the loop reads behind the end
   of the message. -/
theorem blockLoop_wraps
    {size : Nat}
    {inclusive : Bool}
    {data : List UInt8}
    (hSize : 0 < size)
    (hHalf : size * 2 ≤ 2 ^ 64)
    (hFits : data.length < 2 ^ 64)
    (hEnds : ¬Ends size inclusive data)
    (buf : Buffer)
    {x : List UInt8}
    (hRoom : x.length = size) :
    blockLoop compress size inclusive data (roundsOf size data)
      buf x 0 = none := by
  have hDiv := Nat.div_add_mod data.length size
  rw [Nat.mul_comm] at hDiv
  have hLess := Nat.mod_lt data.length hSize
  rw [Ends, not_or] at hEnds
  have hStart : 0 + data.length / size = data.length / size :=
    Nat.zero_add _
  rcases blockLoop_walk compress hSize inclusive
    hFits hStart 1 buf hRoom with ⟨before, -, hWalk⟩
  have hHere :
      data.length / size * size < data.length ∨
        (inclusive = true ∧
          data.length / size * size = data.length) := by
    by_cases hZero : data.length % size = 0
    · refine .inr ⟨?_, by omega⟩
      cases inclusive with
      | true => rfl
      | false => exact absurd ⟨rfl, hZero⟩ hEnds.2
    · exact .inl (by omega)
  have hNext :
      (data.length / size * size + size) % 2 ^ 64 =
        data.length / size * size + size - 2 ^ 64 := by
    rw [Nat.mod_eq_sub_mod (by omega)]
    exact Nat.mod_eq_of_lt (by omega)
  have hWrapped :
      data.length / size * size + size - 2 ^ 64 <
        data.length := by
    omega
  rw [Nat.zero_mul, List.drop_zero] at hWalk
  rw [roundsOf, Nat.add_comm, hWalk, blockLoop, if_pos hHere]
  simp only [hNext]
  rw [if_pos hWrapped, if_neg (by omega)]

------------------------------------------------------------
-- The Last Blocks
------------------------------------------------------------

theorem set_mark
    {rest : List UInt8}
    {size count : Nat}
    (hRest : rest.length = count)
    (hLess : count < size)
    (mark : UInt8) :
    (rest ++ List.replicate (size - count) 0).set count mark =
      rest ++ mark :: List.replicate (size - 1 - count) 0 := by
  have hZeros : size - count = size - 1 - count + 1 := by omega
  rw [List.set_append_right _ _ hRest.le, hRest, Nat.sub_self,
    hZeros, List.replicate_succ, List.set_cons_zero]

theorem length_sub_start (size : Nat) (data : List UInt8) :
    data.length - data.length / size * size =
      data.length % size := by
  have hDiv := Nat.div_add_mod data.length size
  rw [Nat.mul_comm] at hDiv
  omega

/- The blocks that the function feeds are those of the message
   with its padding. -/
theorem hashLoop_eq
    (layout : Layout)
    {data padded : List UInt8}
    (hFits : data.length < 2 ^ 64)
    (hAt : 0 < layout.lengthAt)
    (hField :
      layout.lengthAt + (layout.lengthField data.length).length =
        layout.blockSize)
    (hEnds : Ends layout.blockSize layout.inclusive data)
    (hPadded :
      IsPadded layout.blockSize
        (layout.lengthField data.length) data padded)
    (buf : Buffer)
    {x : List UInt8}
    (hRoom : x.length = layout.blockSize) :
    hashLoop compress layout buf x data =
      some ((blocks layout.blockSize padded).foldl compress
        buf) := by
  have hSize : 0 < layout.blockSize := by omega
  have hLess := Nat.mod_lt data.length hSize
  rcases blockLoop_spec compress hSize hFits hEnds buf hRoom
    with ⟨last, hLast, hLoop⟩
  have hMark := set_mark
    (length_restOf layout.blockSize data) hLess 0x80
  simp only [hashLoop, hLoop, Option.map_some, finish,
    length_sub_start, hLast, hMark]
  by_cases hShort :
      data.length % layout.blockSize < layout.lengthAt
  · have hTake :
        (restOf layout.blockSize data ++
            0x80 ::
              List.replicate
                (layout.blockSize - 1 -
                  data.length % layout.blockSize)
                0).take layout.lengthAt =
          restOf layout.blockSize data ++
            0x80 ::
              List.replicate
                (layout.lengthAt - 1 -
                  data.length % layout.blockSize) 0 := by
      have hCount :
          layout.lengthAt - data.length % layout.blockSize =
            layout.lengthAt - 1 -
              data.length % layout.blockSize + 1 := by
        omega
      rw [List.take_append, length_restOf,
        List.take_of_length_le
          (by rw [length_restOf]; omega),
        hCount, List.take_succ_cons, List.take_replicate,
        min_eq_left (by omega)]
    rw [if_neg (by omega), hTake,
      hPadded.blocks_of_lt hField hShort, List.foldl_append,
      List.foldl_cons, List.foldl_nil, List.append_assoc,
      List.cons_append]
  · have hZeros :
        (List.replicate layout.blockSize (0 : UInt8)).take
            layout.lengthAt =
          List.replicate layout.lengthAt 0 := by
      rw [List.take_replicate, min_eq_left (by omega)]
    rw [if_pos (by omega), hZeros,
      hPadded.blocks_of_le hField hAt (by omega),
      List.foldl_append, List.foldl_cons, List.foldl_cons,
      List.foldl_nil]

theorem hashLoop_wraps
    (layout : Layout)
    {data : List UInt8}
    (hFits : data.length < 2 ^ 64)
    (hSize : 0 < layout.blockSize)
    (hHalf : layout.blockSize * 2 ≤ 2 ^ 64)
    (hEnds : ¬Ends layout.blockSize layout.inclusive data)
    (buf : Buffer)
    {x : List UInt8}
    (hRoom : x.length = layout.blockSize) :
    hashLoop compress layout buf x data = none := by
  rw [hashLoop,
    blockLoop_wraps compress hSize hHalf hFits hEnds buf hRoom]
  rfl

theorem set_last_bit (mark : UInt8) (zeros : Nat) :
    (mark :: List.replicate zeros 0).set zeros
        ((mark :: List.replicate zeros 0).getD zeros 0 |||
          0x80) =
      spongePad mark (zeros + 1) := by
  cases zeros with
  | zero => rfl
  | succ zeros =>
      have hZero :
          (List.replicate (zeros + 1) (0 : UInt8)).getD zeros
              0 ||| 0x80 = 0x80 := by
        rw [List.getD_eq_getElem?_getD,
          List.getElem?_replicate]
        split_ifs <;> rfl
      have hSet :
          (List.replicate (zeros + 1) (0 : UInt8)).set zeros
              0x80 =
            List.replicate zeros 0 ++ [0x80] := by
        rw [List.replicate_succ',
          List.set_append_right _ _
            (List.length_replicate).le,
          List.length_replicate, Nat.sub_self,
          List.set_cons_zero]
      rw [List.getD_cons_succ, hZero, List.set_cons_succ, hSet,
        spongePad]

/- Bits that are set behind a list do not touch it. -/
theorem set_or_append
    (rest tail : List UInt8)
    (place : Nat)
    (bits : UInt8) :
    (rest ++ tail).set (rest.length + place)
        ((rest ++ tail).getD (rest.length + place) 0 ||| bits) =
      rest ++ tail.set place (tail.getD place 0 ||| bits) := by
  rw [List.getD_eq_getElem?_getD,
    List.getElem?_append_right (Nat.le_add_right _ _),
    List.set_append_right _ _ (Nat.le_add_right _ _),
    Nat.add_sub_cancel_left, ← List.getD_eq_getElem?_getD]

/- The last block of a sponge is the rest with its padding. -/
theorem spongeFinish_eq
    {size count : Nat}
    {rest last : List UInt8}
    (hRest : rest.length = count)
    (hLess : count < size)
    (hLast : last.take count = rest)
    (mark : UInt8)
    (dataLen : Nat)
    (buf : Buffer)
    {i : Nat}
    (hCount : dataLen - i = count) :
    spongeFinish compress size mark dataLen buf last i =
      compress buf (rest ++ spongePad mark (size - count)) := by
  have hZeros : size - count = size - 1 - count + 1 := by omega
  have hMark :
      (rest ++ List.replicate (size - count) 0).set count
          ((rest ++ List.replicate (size - count) 0).getD
              count 0 |||
            mark) =
        rest ++ mark :: List.replicate (size - 1 - count) 0 := by
    have hSet := set_or_append rest
      (List.replicate (size - count) 0) 0 mark
    rw [Nat.add_zero, hRest] at hSet
    rw [hSet, hZeros, List.replicate_succ, List.getD_cons_zero,
      UInt8.zero_or, List.set_cons_zero]
  have hPlace : size - 1 = rest.length + (size - 1 - count) := by
    omega
  have hLastBit := set_last_bit mark (size - 1 - count)
  rw [← hZeros] at hLastBit
  simp only [spongeFinish, hCount, hLast, hMark]
  rw [hPlace, set_or_append, ← hPlace, hLastBit]

theorem spongeLoop_eq
    {mark : UInt8}
    {data padded : List UInt8}
    (hFits : data.length < 2 ^ 64)
    (hEnds : Ends 136 true data)
    (hPadded : IsSpongePadded 136 mark data padded)
    (buf : Buffer)
    {x : List UInt8}
    (hRoom : x.length = 136) :
    spongeLoop compress mark buf x data =
      some ((blocks 136 padded).foldl compress buf) := by
  have hLess : data.length % 136 < 136 :=
    Nat.mod_lt _ (by decide)
  rcases blockLoop_spec compress (by decide) hFits hEnds buf
    hRoom with ⟨last, hLast, hLoop⟩
  have hFinish := spongeFinish_eq compress
    (length_restOf 136 data) hLess hLast mark data.length
    ((blocks 136 data).foldl compress buf)
    (length_sub_start 136 data)
  rw [spongeLoop, hLoop, Option.map_some, hFinish,
    hPadded.blocks_eq, List.foldl_append, List.foldl_cons,
    List.foldl_nil]

theorem spongeLoop_wraps
    {mark : UInt8}
    {data : List UInt8}
    (hFits : data.length < 2 ^ 64)
    (hEnds : ¬Ends 136 true data)
    (buf : Buffer)
    {x : List UInt8}
    (hRoom : x.length = 136) :
    spongeLoop compress mark buf x data = none := by
  rw [spongeLoop,
    blockLoop_wraps compress (by decide) (by decide) hFits
      hEnds buf hRoom]
  rfl

------------------------------------------------------------
-- The Standards
------------------------------------------------------------

/- A message in memory: its size is a `size_t`. -/
structure Data where
  bytes : List UInt8
  length_lt : bytes.length < 2 ^ 64

/- The padding of SHA-224 and SHA-256, for messages of less than
   2^64 bits. -/
def Sha256Padded (data padded : List UInt8) : Prop :=
  8 * data.length < 2 ^ 64 ∧
    IsPadded 64 (bigEndian 8 (8 * data.length)) data padded

/- The padding of SHA-384 and SHA-512, for messages of less than
   2^128 bits. -/
def Sha512Padded (data padded : List UInt8) : Prop :=
  8 * data.length < 2 ^ 128 ∧
    IsPadded 128 (bigEndian 16 (8 * data.length)) data padded

/- The padding of MD5 and RIPEMD-160, with the low bits of the
   length of any message. -/
def Md5Padded (data padded : List UInt8) : Prop :=
  IsPadded 64 (littleEndian 8 (8 * data.length % 2 ^ 64)) data
    padded

def Sha3Padded (data padded : List UInt8) : Prop :=
  IsSpongePadded 136 0x06 data padded

def KeccakPadded (data padded : List UInt8) : Prop :=
  IsSpongePadded 136 0x01 data padded

/- Whatever the compression function, and whatever stood in `x`,
   it gets the blocks of the padded message, in order, and no
   read leaves the message. -/
def Feeds
    (size : Nat)
    (hash : ∀ {Buffer : Type},
      (Buffer → List UInt8 → Buffer) → Buffer →
        List.Vector UInt8 size → List UInt8 → Option Buffer)
    (Padded : List UInt8 → List UInt8 → Prop)
    (data : Data) : Prop :=
  ∀ padded, Padded data.bytes padded →
    ∀ {Buffer : Type}
      (compress : Buffer → List UInt8 → Buffer)
      (buf : Buffer)
      (x : List.Vector UInt8 size),
      hash compress buf x data.bytes =
        some ((blocks size padded).foldl compress buf)

------------------------------------------------------------
-- The Lengths
------------------------------------------------------------

theorem littleEndianWords_eq (dataLen : Nat) :
    littleEndianWords dataLen =
      littleEndian 8 (8 * dataLen % 2 ^ 64) := by
  have hLow :
      littleEndian 4 (dataLen * 2 ^ 3 % 2 ^ 32) =
        littleEndian 4 (8 * dataLen) := by
    rw [Nat.mul_comm dataLen]
    exact littleEndian_mod 4 _
  have hHigh :
      littleEndian 4 (dataLen / 2 ^ 29 % 2 ^ 32) =
        littleEndian 4 (8 * dataLen / 256 ^ 4) := by
    have hDiv : dataLen / 2 ^ 29 = 8 * dataLen / 256 ^ 4 := by
      omega
    rw [hDiv]
    exact littleEndian_mod 4 _
  have hWhole :
      littleEndian 8 (8 * dataLen % 2 ^ 64) =
        littleEndian 8 (8 * dataLen) :=
    littleEndian_mod 8 _
  rw [littleEndianWords, hLow, hHigh, hWhole]
  exact (littleEndian_add 4 4 _).symm

theorem bigEndianWords_eq
    {dataLen : Nat}
    (hFits : 8 * dataLen < 2 ^ 64) :
    bigEndianWords dataLen = bigEndian 8 (8 * dataLen) := by
  have hWords := littleEndianWords_eq dataLen
  rw [Nat.mod_eq_of_lt hFits] at hWords
  rw [bigEndianWords, bigEndian, bigEndian,
    ← List.reverse_append, bigEndian, ← hWords]
  rfl

theorem bigEndianDoubleWords_eq (dataLen : Nat) :
    bigEndianDoubleWords dataLen =
      bigEndian 16 (8 * dataLen % 2 ^ 64) := by
  have hLow :
      littleEndian 8 (dataLen * 8 % 2 ^ 64) =
        littleEndian 8 (8 * dataLen % 2 ^ 64) := by
    rw [Nat.mul_comm]
  have hHigh : 8 * dataLen % 2 ^ 64 / 256 ^ 8 = 0 :=
    Nat.div_eq_of_lt (Nat.mod_lt _ (by decide))
  have hWhole :
      littleEndian 16 (8 * dataLen % 2 ^ 64) =
        littleEndian 8 (8 * dataLen % 2 ^ 64) ++
          littleEndian 8 0 := by
    rw [← hHigh]
    exact littleEndian_add 8 8 _
  rw [bigEndianDoubleWords, bigEndian, bigEndian,
    ← List.reverse_append, hLow, bigEndian, hWhole]

/- A length from 2^61 bytes on is not the one that is written. -/
theorem bigEndianDoubleWords_ne
    {dataLen : Nat}
    (hLong : 2 ^ 61 ≤ dataLen)
    (hFits : dataLen < 2 ^ 64) :
    bigEndianDoubleWords dataLen ≠
      bigEndian 16 (8 * dataLen) := by
  intro hSame
  have hRight :
      ofBigEndian (bigEndian 16 (8 * dataLen)) = 8 * dataLen :=
    ofBigEndian_bigEndian 16 (by omega)
  have hLeft :
      ofBigEndian (bigEndian 16 (8 * dataLen % 2 ^ 64)) =
        8 * dataLen % 2 ^ 64 :=
    ofBigEndian_bigEndian 16 (by omega)
  have hValue := congrArg ofBigEndian hSame
  rw [bigEndianDoubleWords_eq, hLeft, hRight] at hValue
  omega

/- The last block of a padded message ends in the length. -/
theorem exists_lastBlock
    (size lengthAt : Nat)
    {field message padded : List UInt8}
    (hField : lengthAt + field.length = size)
    (hAt : 0 < lengthAt)
    (hPadded : IsPadded size field message padded) :
    ∃ front body,
      blocks size padded = front ++ [body ++ field] ∧
        body.length = lengthAt := by
  have hSize : 0 < size := by omega
  have hLess := Nat.mod_lt message.length hSize
  by_cases hShort : message.length % size < lengthAt
  · refine ⟨blocks size message,
      restOf size message ++
        0x80 ::
          List.replicate
            (lengthAt - 1 - message.length % size) 0, ?_, ?_⟩
    · rw [hPadded.blocks_of_lt hField hShort,
        List.append_assoc, List.cons_append]
    · rw [List.length_append, length_restOf, List.length_cons,
        List.length_replicate]
      omega
  · refine ⟨blocks size message ++
        [restOf size message ++
          0x80 ::
            List.replicate
              (size - 1 - message.length % size) 0],
      List.replicate lengthAt 0, ?_, List.length_replicate⟩
    rw [hPadded.blocks_of_le hField hAt (by omega),
      List.append_assoc]
    rfl

------------------------------------------------------------
-- What Is Fed
------------------------------------------------------------

theorem foldl_collect
    (found items : List (List UInt8)) :
    items.foldl (fun front item => front ++ [item]) found =
      found ++ items := by
  induction items generalizing found with
  | nil => exact (List.append_nil found).symm
  | cons item items hItems =>
      rw [List.foldl_cons, hItems, List.append_assoc]
      rfl

theorem feeds_sha256 (data : Data) :
    Feeds 64 BRSHA256 Sha256Padded data := by
  intro padded hPadded Buffer compress buf x
  have hShort := hPadded.1
  have hEnds : Ends 64 false data.bytes := by
    refine .inl ?_
    have hLe := Nat.div_mul_le_self data.bytes.length 64
    omega
  refine hashLoop_eq compress sha256Layout data.length_lt
    (by decide) rfl hEnds ?_ buf x.2
  change IsPadded 64 (bigEndianWords _) _ _
  rw [bigEndianWords_eq hShort]
  exact hPadded.2

/- A place that wraps around spoils the function. -/
theorem not_feeds_of_wraps
    {size : Nat}
    {hash : ∀ {Buffer : Type},
      (Buffer → List UInt8 → Buffer) → Buffer →
        List.Vector UInt8 size → List UInt8 → Option Buffer}
    {Padded : List UInt8 → List UInt8 → Prop}
    {data : Data}
    (hPadded : ∃ padded, Padded data.bytes padded)
    (hNone : ∀ x : List.Vector UInt8 size,
      hash (fun _ _ => ()) () x data.bytes = none) :
    ¬Feeds size hash Padded data := by
  rcases hPadded with ⟨padded, hPadded⟩
  intro hFeeds
  have hSome := hFeeds padded hPadded (fun _ _ => ()) ()
    (List.Vector.replicate size 0)
  have hNothing := (hNone _).symm.trans hSome
  cases hNothing

theorem ends_inclusive_iff
    (size : Nat)
    (data : List UInt8) :
    Ends size true data ↔
      data.length / size * size + size < 2 ^ 64 := by
  rw [Ends, or_iff_left]
  rintro ⟨hTrue, -⟩
  cases hTrue

theorem feeds_md5_iff (data : Data) :
    Feeds 64 BRMD5 Md5Padded data ↔
      data.bytes.length < 2 ^ 64 - 64 := by
  have hEndsIff :
      Ends 64 true data.bytes ↔
        data.bytes.length < 2 ^ 64 - 64 := by
    rw [ends_inclusive_iff]
    omega
  rw [← hEndsIff]
  constructor
  · intro hFeeds
    by_contra hEnds
    refine not_feeds_of_wraps ?_ (fun x => ?_) hFeeds
    · exact exists_isPadded 64 56 _ _ rfl (by decide)
    · exact hashLoop_wraps _ md5Layout data.length_lt
        (by decide) (by decide) hEnds () x.2
  · intro hEnds padded hPadded Buffer compress buf x
    refine hashLoop_eq compress md5Layout data.length_lt
      (by decide) rfl hEnds ?_ buf x.2
    change IsPadded 64 (littleEndianWords _) _ _
    rw [littleEndianWords_eq]
    exact hPadded

theorem feeds_sponge_iff
    (mark : UInt8)
    (data : Data) :
    Feeds 136
        (fun compress buf x data =>
          spongeLoop compress mark buf x.toList data)
        (IsSpongePadded 136 mark) data ↔
      data.bytes.length / 136 * 136 + 136 < 2 ^ 64 := by
  rw [← ends_inclusive_iff]
  constructor
  · intro hFeeds
    by_contra hEnds
    refine not_feeds_of_wraps ?_ (fun x => ?_) hFeeds
    · exact exists_isSpongePadded (by decide) _ _
    · exact spongeLoop_wraps _ data.length_lt hEnds () x.2
  · intro hEnds padded hPadded Buffer compress buf x
    exact spongeLoop_eq compress data.length_lt hEnds hPadded
      buf x.2

theorem feeds_sha512_of_short
    {data : Data}
    (hShort : data.bytes.length < 2 ^ 61) :
    Feeds 128 BRSHA512 Sha512Padded data := by
  intro padded hPadded Buffer compress buf x
  have hEnds : Ends 128 false data.bytes := by
    refine .inl ?_
    have hLe := Nat.div_mul_le_self data.bytes.length 128
    omega
  have hBits :
      8 * data.bytes.length % 2 ^ 64 =
        8 * data.bytes.length :=
    Nat.mod_eq_of_lt (by omega)
  refine hashLoop_eq compress sha512Layout data.length_lt
    (by decide) rfl hEnds ?_ buf x.2
  change IsPadded 128 (bigEndianDoubleWords _) _ _
  rw [bigEndianDoubleWords_eq, hBits]
  exact hPadded.2

/- From 2^61 bytes on the length at the end is too small, unless
   the place wraps around first. -/
theorem not_feeds_sha512_of_long
    {data : Data}
    (hLong : 2 ^ 61 ≤ data.bytes.length) :
    ¬Feeds 128 BRSHA512 Sha512Padded data := by
  have hFits := data.length_lt
  rcases exists_isPadded 128 112
    (bigEndian 16 (8 * data.bytes.length)) data.bytes rfl
    (by decide) with ⟨padded, hPadded⟩
  have hStandard : Sha512Padded data.bytes padded :=
    ⟨by omega, hPadded⟩
  by_cases hEnds : Ends 128 false data.bytes
  · rcases exists_isPadded 128 112
      (bigEndianDoubleWords data.bytes.length) data.bytes rfl
      (by decide) with ⟨other, hOther⟩
    have hLoop := hashLoop_eq (fun front item => front ++ [item])
      sha512Layout data.length_lt (by decide) rfl hEnds hOther
      [] (List.Vector.replicate 128 0).2
    intro hFeeds
    have hSame := hFeeds padded hStandard
      (fun front item => front ++ [item]) []
      (List.Vector.replicate 128 0)
    have hBlocks := Option.some_inj.mp (hLoop.symm.trans hSame)
    rw [foldl_collect, foldl_collect, List.nil_append,
      List.nil_append] at hBlocks
    change blocks 128 other = blocks 128 padded at hBlocks
    rcases exists_lastBlock 128 112 rfl (by decide) hOther with
      ⟨front, body, hFront, hBody⟩
    rcases exists_lastBlock 128 112 rfl (by decide) hPadded with
      ⟨others, found, hOthers, hFound⟩
    rw [hFront, hOthers] at hBlocks
    have hLast :=
      List.singleton_inj.mp (List.append_inj' hBlocks rfl).2
    exact bigEndianDoubleWords_ne hLong hFits
      (List.append_inj hLast (hBody.trans hFound.symm)).2
  · refine not_feeds_of_wraps ⟨padded, hStandard⟩ fun x => ?_
    exact hashLoop_wraps _ sha512Layout data.length_lt
      (by decide) (by decide) hEnds () x.2

theorem feeds_sha512_iff (data : Data) :
    Feeds 128 BRSHA512 Sha512Padded data ↔
      data.bytes.length < 2 ^ 61 := by
  refine ⟨fun hFeeds => ?_, feeds_sha512_of_short⟩
  by_contra hLong
  exact not_feeds_sha512_of_long (by omega) hFeeds

/- Which messages each function pads as its standard does. -/
theorem feeds_iff (data : Data) :
    Feeds 64 BRSHA256 Sha256Padded data ∧
      (Feeds 128 BRSHA512 Sha512Padded data ↔
        data.bytes.length < 2 ^ 61) ∧
      (Feeds 64 BRRMD160 Md5Padded data ↔
        data.bytes.length < 2 ^ 64 - 64) ∧
      (Feeds 64 BRMD5 Md5Padded data ↔
        data.bytes.length < 2 ^ 64 - 64) ∧
      (Feeds 136 BRSHA3_256 Sha3Padded data ↔
        data.bytes.length / 136 * 136 + 136 < 2 ^ 64) ∧
      (Feeds 136 BRKeccak256 KeccakPadded data ↔
        data.bytes.length / 136 * 136 + 136 < 2 ^ 64) :=
  ⟨feeds_sha256 data, feeds_sha512_iff data,
    feeds_md5_iff data, feeds_md5_iff data,
    feeds_sponge_iff 0x06 data, feeds_sponge_iff 0x01 data⟩

/- A message of 2^61 bytes. -/
def longData : Data where
  bytes := List.replicate (2 ^ 61) 0
  length_lt := by
    rw [List.length_replicate]
    decide

theorem not_feeds_longData :
    ¬Feeds 128 BRSHA512 Sha512Padded longData := by
  refine not_feeds_sha512_of_long ?_
  exact List.length_replicate.ge

end Hash

end PlusWallet
