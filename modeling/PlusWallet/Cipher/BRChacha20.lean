import PlusWallet.Library.ByteOrder
import PlusWallet.Library.XorBytes

/-
  The stream cipher of `BRCrypto.c`.

  The loop keeps a block of the key stream and the state of the
  next block, whose counter is two words with a carry.

  Main declarations:
    * `Chacha.BRChacha20`
    * `Chacha.stateAt`, `Chacha.streamByte`
    * `Chacha.chachaLoop_eq`, `Chacha.BRChacha20_stream`
    * `Chacha.BRChacha20_laws`
    * `Chacha.nonceCipher`, `Chacha.aeadKey_eq`,
      `Chacha.aeadData_eq`
-/

namespace PlusWallet

namespace Chacha

open Bytes XorBytes

------------------------------------------------------------
-- Blocks
------------------------------------------------------------

def rol32 (a b : UInt32) : UInt32 :=
  (a <<< b) ||| (a >>> (32 - b))

/- `qr`, on four words of a state. -/
def qr (x : List UInt32) (a b c d : Nat) : List UInt32 :=
  let wordA := x.getD a 0 + x.getD b 0
  let wordD := rol32 (x.getD d 0 ^^^ wordA) 16
  let wordC := x.getD c 0 + wordD
  let wordB := rol32 (x.getD b 0 ^^^ wordC) 12
  let wordA := wordA + wordB
  let wordD := rol32 (wordD ^^^ wordA) 8
  let wordC := wordC + wordD
  let wordB := rol32 (wordB ^^^ wordC) 7
  (((x.set a wordA).set b wordB).set c wordC).set d wordD

/- The words that the eight steps of a turn work on. -/
def quarters : List (Nat × Nat × Nat × Nat) :=
  [(0, 4, 8, 12), (1, 5, 9, 13), (2, 6, 10, 14),
    (3, 7, 11, 15), (0, 5, 10, 15), (1, 6, 11, 12),
    (2, 7, 8, 13), (3, 4, 9, 14)]

def turn (x : List UInt32) : List UInt32 :=
  quarters.foldl
    (fun x places =>
      qr x places.1 places.2.1 places.2.2.1 places.2.2.2)
    x

/- Words in memory. -/
def bytesOf (words : List UInt32) : List UInt8 :=
  words.flatMap fun word => littleEndian 4 word.toNat

/- One block of the key stream. -/
def block (s : List UInt32) : List UInt8 :=
  bytesOf (List.zipWith (fun a b => a + b) s (turn^[10] s))

------------------------------------------------------------
-- The Loop
------------------------------------------------------------

def sigma : List UInt8 :=
  [0x65, 0x78, 0x70, 0x61, 0x6e, 0x64, 0x20, 0x33, 0x32, 0x2d,
    0x62, 0x79, 0x74, 0x65, 0x20, 0x6b]

/- Words in the order of their bytes. -/
def wordsOf : List UInt8 → List UInt32
  | a :: b :: c :: d :: bytes =>
      UInt32.ofNat (ofLittleEndian [a, b, c, d]) ::
        wordsOf bytes
  | _ => []

/- The words in front of the counter. -/
def keyWords (key32 : List.Vector UInt8 32) : List UInt32 :=
  wordsOf sigma ++ wordsOf key32.toList

/- `s[12]++`, and `s[13]++` when that wraps around. -/
def increment (s : List UInt32) : List UInt32 :=
  let low := s.getD 12 0 + 1
  let s := s.set 12 low
  if low = 0 then s.set 13 (s.getD 13 0 + 1) else s

def chachaLoop :
    List UInt8 → Nat → List UInt32 → List UInt8 →
      List UInt8
  | [], _, _, _ => []
  | byte :: data, i, s, b =>
      let b := if i % 64 = 0 then block s else b
      let s := if i % 64 = 0 then increment s else s
      (byte ^^^ b.getD (i % 64) 0) ::
        chachaLoop data (i + 1) s b

/- `b` holds whatever the stack did. -/
def BRChacha20
    (key32 : List.Vector UInt8 32)
    (iv8 : List.Vector UInt8 8)
    (b data : List UInt8)
    (counter : UInt64) : List UInt8 :=
  let s :=
    keyWords key32 ++
      ([counter.toUInt32, (counter >>> 32).toUInt32] ++
        wordsOf iv8.toList)
  chachaLoop data 0 s b

------------------------------------------------------------
-- The Key Stream
------------------------------------------------------------

variable (key32 : List.Vector UInt8 32)
variable (iv8 : List.Vector UInt8 8)

/- The state of a block by its number. -/
def stateAt (number : Nat) : List UInt32 :=
  keyWords key32 ++
    (UInt32.ofNat number :: UInt32.ofNat (number / 2 ^ 32) ::
      wordsOf iv8.toList)

/- A byte of the key stream that starts with a block. -/
def streamByte (number i : Nat) : UInt8 :=
  (block (stateAt key32 iv8 (number + i / 64))).getD (i % 64) 0

theorem length_wordsOf
    {count : Nat}
    {bytes : List UInt8}
    (hBytes : bytes.length = 4 * count) :
    (wordsOf bytes).length = count := by
  induction count generalizing bytes with
  | zero =>
      rw [Nat.mul_zero, List.length_eq_zero_iff] at hBytes
      rw [hBytes]
      rfl
  | succ count hCount =>
      rcases bytes with
        _ | ⟨a, _ | ⟨b, _ | ⟨c, _ | ⟨d, bytes⟩⟩⟩⟩
      · cases hBytes
      · cases hBytes
      · cases hBytes
      · cases hBytes
      · simp only [List.length_cons] at hBytes
        rw [wordsOf, List.length_cons, hCount (by omega)]

theorem length_keyWords : (keyWords key32).length = 12 := by
  have hSigma : (wordsOf sigma).length = 4 :=
    length_wordsOf rfl
  have hKey : (wordsOf key32.toList).length = 8 :=
    length_wordsOf key32.2
  rw [keyWords, List.length_append, hSigma, hKey]

theorem ofNat_succ (number : Nat) :
    UInt32.ofNat number + 1 = UInt32.ofNat (number + 1) := by
  rw [UInt32.ofNat_add]
  rfl

theorem ofNat_eq_zero_iff (number : Nat) :
    UInt32.ofNat number = 0 ↔ number % 2 ^ 32 = 0 := by
  rw [← UInt32.toNat_inj, UInt32.toNat_ofNat']
  rfl

/- The carry makes one counter of the two words. -/
theorem increment_stateAt (number : Nat) :
    increment (stateAt key32 iv8 number) =
      stateAt key32 iv8 (number + 1) := by
  have hKey := length_keyWords key32
  unfold stateAt
  generalize wordsOf iv8.toList = rest
  generalize keyWords key32 = front at hKey
  have hLow :
      (front ++
          (UInt32.ofNat number ::
            UInt32.ofNat (number / 2 ^ 32) :: rest)).getD 12
          0 =
        UInt32.ofNat number := by
    rw [List.getD_append_right _ _ _ _ hKey.le, hKey]
    rfl
  have hSetLow (low : UInt32) :
      (front ++
          (UInt32.ofNat number ::
            UInt32.ofNat (number / 2 ^ 32) :: rest)).set 12
          low =
        front ++
          (low :: UInt32.ofNat (number / 2 ^ 32) :: rest) := by
    rw [List.set_append_right _ _ hKey.le, hKey]
    rfl
  have hHigh (low high : UInt32) :
      (front ++ (low :: high :: rest)).getD 13 0 = high := by
    rw [List.getD_append_right _ _ _ _ (by omega), hKey]
    rfl
  have hSetHigh (low high word : UInt32) :
      (front ++ (low :: high :: rest)).set 13 word =
        front ++ (low :: word :: rest) := by
    rw [List.set_append_right _ _ (by omega), hKey]
    rfl
  simp only [increment, hLow, hSetLow, hHigh, hSetHigh,
    ofNat_succ, ofNat_eq_zero_iff]
  split_ifs with hCarry
  · have hNext :
        (number + 1) / 2 ^ 32 = number / 2 ^ 32 + 1 := by
      omega
    rw [hNext]
  · have hSame : (number + 1) / 2 ^ 32 = number / 2 ^ 32 := by
      omega
    rw [hSame]

/- The block and the state that belong to a place. -/
structure Stands
    (number i : Nat)
    (s : List UInt32)
    (b : List UInt8) : Prop where
  starts :
    i % 64 = 0 → s = stateAt key32 iv8 (number + i / 64)
  inside :
    i % 64 ≠ 0 →
      s = stateAt key32 iv8 (number + i / 64 + 1) ∧
        b = block (stateAt key32 iv8 (number + i / 64))

/- The loop from a place on. -/
theorem chachaLoop_eq
    (number : Nat)
    (data : List UInt8)
    {i : Nat}
    {s : List UInt32}
    {b : List UInt8}
    (hStands : Stands key32 iv8 number i s b) :
    chachaLoop data i s b =
      data.mapIdx fun k byte =>
        byte ^^^ streamByte key32 iv8 number (i + k) := by
  induction data generalizing i s b with
  | nil => rfl
  | cons byte data hData =>
      have hShift :
          (fun k (byte : UInt8) =>
              byte ^^^
                streamByte key32 iv8 number (i + (k + 1))) =
            fun k byte =>
              byte ^^^
                streamByte key32 iv8 number (i + 1 + k) := by
        funext k byte
        rw [Nat.add_right_comm, Nat.add_assoc]
      rw [List.mapIdx_cons, hShift, chachaLoop]
      by_cases hStart : i % 64 = 0
      · have hHere := hStands.starts hStart
        rw [if_pos hStart, if_pos hStart, hHere,
          increment_stateAt]
        have hNext :
            Stands key32 iv8 number (i + 1)
              (stateAt key32 iv8 (number + i / 64 + 1))
              (block
                (stateAt key32 iv8 (number + i / 64))) := by
          have hDiv : (i + 1) / 64 = i / 64 := by omega
          refine ⟨fun hZero => ?_, fun _ => ?_⟩
          · omega
          · rw [hDiv]
            exact ⟨rfl, rfl⟩
        rw [hData hNext]
        rfl
      · rcases hStands.inside hStart with ⟨hState, hBlock⟩
        rw [if_neg hStart, if_neg hStart, hBlock]
        have hNext :
            Stands key32 iv8 number (i + 1) s
              (block
                (stateAt key32 iv8 (number + i / 64))) := by
          refine ⟨fun hZero => ?_, fun hMore => ?_⟩
          · have hDiv : (i + 1) / 64 = i / 64 + 1 := by omega
            rw [hDiv, hState]
            rfl
          · have hDiv : (i + 1) / 64 = i / 64 := by omega
            rw [hDiv]
            exact ⟨hState, rfl⟩
        rw [hData hNext]
        rfl

/- The two words of the counter. -/
theorem counterWords (counter : UInt64) :
    counter.toUInt32 = UInt32.ofNat counter.toNat ∧
      (counter >>> 32).toUInt32 =
        UInt32.ofNat (counter.toNat / 2 ^ 32) := by
  constructor
  · rw [← UInt32.toNat_inj, UInt64.toNat_toUInt32,
      UInt32.toNat_ofNat']
  · have hShift :
        (counter >>> 32).toNat = counter.toNat / 2 ^ 32 := by
      rw [UInt64.toNat_shiftRight, Nat.shiftRight_eq_div_pow]
      rfl
    rw [← UInt32.toNat_inj, UInt64.toNat_toUInt32, hShift,
      UInt32.toNat_ofNat']

/- The data under exclusive or with the key stream. -/
theorem BRChacha20_stream
    (b data : List UInt8)
    (counter : UInt64) :
    BRChacha20 key32 iv8 b data counter =
      data.mapIdx fun i byte =>
        byte ^^^ streamByte key32 iv8 counter.toNat i := by
  rcases counterWords counter with ⟨hLow, hHigh⟩
  have hStands :
      Stands key32 iv8 counter.toNat 0
        (stateAt key32 iv8 counter.toNat) b :=
    ⟨fun _ => rfl, fun hMore => absurd rfl hMore⟩
  have hLoop :=
    chachaLoop_eq key32 iv8 counter.toNat data hStands
  simp only [Nat.zero_add] at hLoop
  rw [BRChacha20, hLow, hHigh]
  exact hLoop

------------------------------------------------------------
-- Laws of the Cipher
------------------------------------------------------------

/- The counter wraps around after 2^64 blocks. -/
theorem stateAt_mod (number : Nat) :
    stateAt key32 iv8 (number % 2 ^ 64) =
      stateAt key32 iv8 number := by
  have hLow :
      UInt32.ofNat (number % 2 ^ 64) = UInt32.ofNat number := by
    rw [← UInt32.toNat_inj, UInt32.toNat_ofNat',
      UInt32.toNat_ofNat']
    omega
  have hHigh :
      UInt32.ofNat (number % 2 ^ 64 / 2 ^ 32) =
        UInt32.ofNat (number / 2 ^ 32) := by
    rw [← UInt32.toNat_inj, UInt32.toNat_ofNat',
      UInt32.toNat_ofNat']
    omega
  rw [stateAt, hLow, hHigh, stateAt]

theorem stateAt_add (number more : Nat) :
    stateAt key32 iv8 (number % 2 ^ 64 + more) =
      stateAt key32 iv8 (number + more) := by
  have hSame :
      (number % 2 ^ 64 + more) % 2 ^ 64 =
        (number + more) % 2 ^ 64 :=
    Nat.mod_add_mod _ _ _
  rw [← stateAt_mod, hSame, stateAt_mod]

/- The key stream behind so many blocks. -/
theorem streamByte_add (number k i : Nat) :
    streamByte key32 iv8 number (64 * k + i) =
      streamByte key32 iv8 ((number + k) % 2 ^ 64) i := by
  have hDiv : (64 * k + i) / 64 = k + i / 64 := by omega
  have hMod : (64 * k + i) % 64 = i % 64 := by omega
  rw [streamByte, streamByte, hDiv, hMod, stateAt_add,
    Nat.add_assoc]

/- What the stack held makes no difference. -/
theorem BRChacha20_free
    (b other data : List UInt8)
    (counter : UInt64) :
    BRChacha20 key32 iv8 b data counter =
      BRChacha20 key32 iv8 other data counter := by
  rw [BRChacha20_stream, BRChacha20_stream]

theorem length_BRChacha20
    (b data : List UInt8)
    (counter : UInt64) :
    (BRChacha20 key32 iv8 b data counter).length =
      data.length := by
  rw [BRChacha20_stream, List.length_mapIdx]

theorem BRChacha20_BRChacha20
    (b other data : List UInt8)
    (counter : UInt64) :
    BRChacha20 key32 iv8 b
        (BRChacha20 key32 iv8 other data counter) counter =
      data := by
  rw [BRChacha20_stream, BRChacha20_stream,
    List.mapIdx_mapIdx]
  refine List.ext_getElem (List.length_mapIdx) ?_
  intro i hHere hThere
  rw [List.getElem_mapIdx]
  exact xor_xor_right _ _

/-
  The cipher undoes itself, and data that is cut behind whole
  blocks goes on with the counter of the next block, also where
  the counter wraps around.
-/
theorem BRChacha20_laws
    (b other data left right : List UInt8)
    (counter : UInt64)
    {k : Nat}
    (hLeft : left.length = 64 * k) :
    BRChacha20 key32 iv8 b
        (BRChacha20 key32 iv8 other data counter) counter =
      data ∧
      BRChacha20 key32 iv8 b (left ++ right) counter =
        BRChacha20 key32 iv8 b left counter ++
          BRChacha20 key32 iv8 other right
            (counter + UInt64.ofNat k) := by
  constructor
  · exact BRChacha20_BRChacha20 key32 iv8 b other data counter
  · have hNext :
        (counter + UInt64.ofNat k).toNat =
          (counter.toNat + k) % 2 ^ 64 := by
      rw [UInt64.toNat_add, UInt64.toNat_ofNat',
        Nat.add_mod_mod]
    have hShift (i : Nat) :
        streamByte key32 iv8 counter.toNat (i + left.length) =
          streamByte key32 iv8
            ((counter.toNat + k) % 2 ^ 64) i := by
      rw [hLeft, Nat.add_comm, streamByte_add]
    rw [BRChacha20_stream, BRChacha20_stream,
      BRChacha20_stream, List.mapIdx_append, hNext]
    simp only [hShift]

theorem BRChacha20_laws_wrap :
    BRChacha20 (List.Vector.replicate 32 7)
        (List.Vector.replicate 8 3) []
        (BRChacha20 (List.Vector.replicate 32 7)
          (List.Vector.replicate 8 3) [1] [4, 5, 6]
          0xffffffffffffffff)
        0xffffffffffffffff =
      [4, 5, 6] ∧
      BRChacha20 (List.Vector.replicate 32 7)
          (List.Vector.replicate 8 3) []
          (List.replicate 64 0 ++ [1, 2])
          0xffffffffffffffff =
        BRChacha20 (List.Vector.replicate 32 7)
            (List.Vector.replicate 8 3) []
            (List.replicate 64 0) 0xffffffffffffffff ++
          BRChacha20 (List.Vector.replicate 32 7)
            (List.Vector.replicate 8 3) [1] [1, 2]
            (0xffffffffffffffff + UInt64.ofNat 1) :=
  BRChacha20_laws _ _ [] [1] [4, 5, 6] (List.replicate 64 0)
    [1, 2] 0xffffffffffffffff List.length_replicate

------------------------------------------------------------
-- Nonces of Twelve Bytes
------------------------------------------------------------

/- The last eight bytes of a nonce. -/
def nonceIv (nonce12 : List.Vector UInt8 12) :
    List.Vector UInt8 8 :=
  ⟨nonce12.toList.drop 4, by
    rw [List.length_drop, List.Vector.toList_length]⟩

/- The first four bytes of a nonce, in the upper half of the
   counter. -/
def aeadCounter (nonce12 : List.Vector UInt8 12) : UInt64 :=
  UInt64.ofNat
    (ofLittleEndian
      ([0, 0, 0, 0] ++ nonce12.toList.take 4))

/- The state with a counter of one word and a nonce of three. -/
def nonceState
    (nonce12 : List.Vector UInt8 12)
    (number : Nat) : List UInt32 :=
  keyWords key32 ++
    (UInt32.ofNat number :: wordsOf nonce12.toList)

variable (nonce12 : List.Vector UInt8 12)

/- The first word of a nonce. -/
def nonceWord : Nat :=
  ofLittleEndian (nonce12.toList.take 4)

theorem nonceWord_lt : nonceWord nonce12 < 2 ^ 32 := by
  have hLt := ofLittleEndian_lt (nonce12.toList.take 4)
  have hLength : (nonce12.toList.take 4).length = 4 := by
    rw [List.length_take, List.Vector.toList_length]
    rfl
  rwa [hLength] at hLt

theorem toNat_aeadCounter :
    (aeadCounter nonce12).toNat =
      2 ^ 32 * nonceWord nonce12 := by
  have hLt := nonceWord_lt nonce12
  have hValue :
      ofLittleEndian ([0, 0, 0, 0] ++ nonce12.toList.take 4) =
        2 ^ 32 * nonceWord nonce12 := by
    change
      0 + 256 * (0 + 256 * (0 + 256 * (0 + 256 *
        nonceWord nonce12))) = _
    omega
  rw [aeadCounter, hValue, UInt64.toNat_ofNat']
  omega

theorem wordsOf_nonce :
    wordsOf nonce12.toList =
      UInt32.ofNat (nonceWord nonce12) ::
        wordsOf (nonceIv nonce12).toList := by
  rcases nonce12 with ⟨bytes, hBytes⟩
  rcases bytes with
    _ | ⟨a, _ | ⟨b, _ | ⟨c, _ | ⟨d, bytes⟩⟩⟩⟩
  · cases hBytes
  · cases hBytes
  · cases hBytes
  · cases hBytes
  · rfl

/- Below 2^32 blocks the counter does not reach the nonce. -/
theorem stateAt_nonce
    {number : Nat}
    (hNumber : number < 2 ^ 32) :
    stateAt key32 (nonceIv nonce12)
        ((aeadCounter nonce12).toNat + number) =
      nonceState key32 nonce12 number := by
  have hLow :
      UInt32.ofNat (2 ^ 32 * nonceWord nonce12 + number) =
        UInt32.ofNat number := by
    rw [← UInt32.toNat_inj, UInt32.toNat_ofNat',
      UInt32.toNat_ofNat', Nat.mul_add_mod]
  have hHigh :
      (2 ^ 32 * nonceWord nonce12 + number) / 2 ^ 32 =
        nonceWord nonce12 := by
    omega
  rw [toNat_aeadCounter, stateAt, hLow, hHigh, nonceState,
    wordsOf_nonce]

theorem length_turn (x : List UInt32) :
    (turn x).length = x.length := by
  simp only [turn, quarters, List.foldl_cons, List.foldl_nil,
    qr, List.length_set]

theorem length_turns (count : Nat) (x : List UInt32) :
    (turn^[count] x).length = x.length := by
  induction count with
  | zero => rfl
  | succ count hCount =>
      rw [Function.iterate_succ_apply', length_turn, hCount]

theorem length_bytesOf (words : List UInt32) :
    (bytesOf words).length = 4 * words.length := by
  induction words with
  | nil => rfl
  | cons word words hWords =>
      change (littleEndian 4 _ ++ bytesOf words).length = _
      rw [List.length_append, hWords, length_littleEndian,
        List.length_cons]
      omega

theorem length_block
    {s : List UInt32}
    (hState : s.length = 16) :
    (block s).length = 64 := by
  rw [block, length_bytesOf, List.length_zipWith,
    length_turns, hState]
  rfl

theorem length_nonceState (number : Nat) :
    (nonceState key32 nonce12 number).length = 16 := by
  have hNonce : (wordsOf nonce12.toList).length = 3 :=
    length_wordsOf nonce12.2
  rw [nonceState, List.length_append, length_keyWords,
    List.length_cons, hNonce]

/- The stream from a counter of the nonce. -/
theorem streamByte_nonce
    (first : Nat)
    {i : Nat}
    (hInside : first + i / 64 < 2 ^ 32) :
    streamByte key32 (nonceIv nonce12)
        ((aeadCounter nonce12).toNat + first) i =
      (block
        (nonceState key32 nonce12
          (first + i / 64))).getD (i % 64) 0 := by
  rw [streamByte, Nat.add_assoc, stateAt_nonce key32 nonce12
    hInside]

/- Zeros show the stream itself. -/
theorem mapIdx_zeros
    {stream : Nat → UInt8}
    {bytes : List UInt8}
    {count : Nat}
    (hCount : count ≤ bytes.length)
    (hStream : ∀ i < count, stream i = bytes.getD i 0) :
    ((List.replicate count 0).mapIdx fun i byte =>
        byte ^^^ stream i) =
      bytes.take count := by
  refine List.ext_getElem ?_ fun i hHere hThere => ?_
  · rw [List.length_mapIdx, List.length_replicate,
      List.length_take, Nat.min_eq_left hCount]
  · rw [List.length_mapIdx, List.length_replicate] at hHere
    rw [List.getElem_mapIdx, List.getElem_replicate,
      UInt8.zero_xor, hStream i hHere, List.getElem_take]
    exact List.getD_eq_getElem _ _ (hHere.trans_le hCount)

theorem mapIdx_stream
    {stream other : Nat → UInt8}
    {data : List UInt8}
    (hStream : ∀ i < data.length, stream i = other i) :
    (data.mapIdx fun i byte => byte ^^^ stream i) =
      data.mapIdx fun i byte => byte ^^^ other i := by
  refine List.mapIdx_eq_mapIdx_iff.mpr fun i hInside => ?_
  rw [hStream i hInside]

/- The key of the code is the first half of block zero. -/
theorem aeadKey_eq (b : List UInt8) :
    BRChacha20 key32 (nonceIv nonce12) b (List.replicate 32 0)
        (aeadCounter nonce12) =
      (block (nonceState key32 nonce12 0)).take 32 := by
  have hBlock :
      (block (nonceState key32 nonce12 0)).length = 64 :=
    length_block (length_nonceState key32 nonce12 0)
  rw [BRChacha20_stream]
  refine mapIdx_zeros (by omega) fun i hInside => ?_
  have hDiv : i / 64 = 0 := Nat.div_eq_of_lt (by omega)
  have hMod : i % 64 = i := Nat.mod_eq_of_lt (by omega)
  have hByte := streamByte_nonce key32 nonce12 0
    (i := i) (by omega)
  rw [Nat.add_zero, hDiv, hMod] at hByte
  exact hByte

/- The data under the blocks from number one on. -/
def nonceCipher (data : List UInt8) : List UInt8 :=
  data.mapIdx fun i byte =>
    byte ^^^
      (block
        (nonceState key32 nonce12
          (1 + i / 64))).getD (i % 64) 0

theorem aeadData_eq
    (b : List UInt8)
    {data : List UInt8}
    (hShort : data.length / 64 < 2 ^ 32 - 1) :
    BRChacha20 key32 (nonceIv nonce12) b data
        (aeadCounter nonce12 + 1) =
      nonceCipher key32 nonce12 data := by
  have hCounter := toNat_aeadCounter nonce12
  have hWord := nonceWord_lt nonce12
  have hNext :
      (aeadCounter nonce12 + 1).toNat =
        (aeadCounter nonce12).toNat + 1 := by
    rw [UInt64.toNat_add, hCounter]
    change (2 ^ 32 * nonceWord nonce12 + 1) % 2 ^ 64 = _
    omega
  rw [BRChacha20_stream, hNext]
  refine mapIdx_stream fun i hInside => ?_
  refine streamByte_nonce key32 nonce12 1 ?_
  omega

end Chacha

end PlusWallet
