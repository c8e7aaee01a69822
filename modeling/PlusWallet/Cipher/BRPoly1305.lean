import PlusWallet.Cipher.BRChacha20
import PlusWallet.Platform.SealedValues

/-
  Poly1305 and the sealed messages of `BRCrypto.c`.

  The code feeds its authenticator piece by piece.  All pieces
  but the last are whole blocks, so that the tag is the one of a
  single message.

  Main declarations:
    * `Chacha._BRPoly1305Compress`, `Chacha.BRPoly1305`
    * `Chacha.compress_append`
    * `Chacha.BRChacha20Poly1305AEADEncrypt`,
      `Chacha.BRChacha20Poly1305AEADDecrypt`
    * `Chacha.AEADEncrypt_eq`
    * `Chacha.codeAead`, `Chacha.codeAead_laws`
-/

namespace PlusWallet

namespace Chacha

open Bytes

------------------------------------------------------------
-- Poly1305
------------------------------------------------------------

/- `h`, or `r0` to `r4`: five words of 26 bits. -/
structure Limbs where
  h0 : UInt32
  h1 : UInt32
  h2 : UInt32
  h3 : UInt32
  h4 : UInt32
deriving DecidableEq

/- The words of a block at their places. -/
def wordAt (x : List UInt8) (k : Nat) : UInt32 :=
  (wordsOf x).getD k 0

/- `r &= 0xffffffc0ffffffc0ffffffc0fffffff` -/
def clamped (key32 : List UInt8) : Limbs :=
  let t0 := wordAt key32 0
  let t1 := wordAt key32 1
  let t2 := wordAt key32 2
  let t3 := wordAt key32 3
  { h0 := t0 &&& 0x03ffffff
    h1 := ((t0 >>> 26) ||| (t1 <<< 6)) &&& 0x03ffff03
    h2 := ((t1 >>> 20) ||| (t2 <<< 12)) &&& 0x03ffc0ff
    h3 := ((t2 >>> 14) ||| (t3 <<< 18)) &&& 0x03f03fff
    h4 := (t3 >>> 8) &&& 0x000fffff }

/- `h += x`, with a bit in front of a whole block. -/
def addBlock
    (h : Limbs)
    (x : List UInt8)
    (front : UInt32) : Limbs :=
  let t0 := wordAt x 0
  let t1 := wordAt x 1
  let t2 := wordAt x 2
  let t3 := wordAt x 3
  { h0 := h.h0 + (t0 &&& 0x03ffffff)
    h1 := h.h1 + (((t0 >>> 26) ||| (t1 <<< 6)) &&& 0x03ffffff)
    h2 := h.h2 + (((t1 >>> 20) ||| (t2 <<< 12)) &&& 0x03ffffff)
    h3 := h.h3 + (((t2 >>> 14) ||| (t3 <<< 18)) &&& 0x03ffffff)
    h4 := h.h4 + ((t3 >>> 8) ||| front) }

def product (a b : UInt32) : UInt64 :=
  a.toUInt64 * b.toUInt64

structure Sums where
  d0 : UInt64
  d1 : UInt64
  d2 : UInt64
  d3 : UInt64
  d4 : UInt64

/- `h *= r` -/
def products (h r : Limbs) : Sums :=
  { d0 := product h.h0 r.h0 + product h.h1 r.h4 * 5 +
      product h.h2 r.h3 * 5 + product h.h3 r.h2 * 5 +
      product h.h4 r.h1 * 5
    d1 := product h.h0 r.h1 + product h.h1 r.h0 +
      product h.h2 r.h4 * 5 + product h.h3 r.h3 * 5 +
      product h.h4 r.h2 * 5
    d2 := product h.h0 r.h2 + product h.h1 r.h1 +
      product h.h2 r.h0 + product h.h3 r.h4 * 5 +
      product h.h4 r.h3 * 5
    d3 := product h.h0 r.h3 + product h.h1 r.h2 +
      product h.h2 r.h1 + product h.h3 r.h0 +
      product h.h4 r.h4 * 5
    d4 := product h.h0 r.h4 + product h.h1 r.h3 +
      product h.h2 r.h2 + product h.h3 r.h1 +
      product h.h4 r.h0 }

/- The bits above the lowest 26. -/
def carried (d : UInt64) : UInt32 :=
  (d >>> 26).toUInt32

def lowest (d : UInt64) : UInt32 :=
  (d &&& 0x03ffffff).toUInt32

/- `(partial) h %= p` -/
def carrySums (d : Sums) : Limbs :=
  let d1 := d.d1 + (carried d.d0).toUInt64
  let d2 := d.d2 + (carried d1).toUInt64
  let d3 := d.d3 + (carried d2).toUInt64
  let d4 := d.d4 + (carried d3).toUInt64
  let h0 :=
    ((d.d0 &&& 0x03ffffff) +
      (carried d4 * 5).toUInt64).toUInt32
  { h0 := h0 &&& 0x03ffffff
    h1 := lowest d1 + (h0 >>> 26)
    h2 := lowest d2
    h3 := lowest d3
    h4 := lowest d4 }

def mulLimbs (h r : Limbs) : Limbs :=
  carrySums (products h r)

/- The block at a place of some data; the last one ends with a
   mark and zeros when the data does not fill it. -/
def blockAt (data : List UInt8) (i : Nat) : List UInt8 :=
  if i + 16 > data.length then
    data.drop i ++
      1 :: List.replicate (15 - (data.length - i)) 0
  else (data.drop i).take 16

/- One turn of the loop over the blocks. -/
def compressBlock
    (r : Limbs)
    (data : List UInt8)
    (h : Limbs)
    (k : Nat) : Limbs :=
  let i := 16 * k
  let front : UInt32 :=
    if i + 16 ≤ data.length then 0x01000000 else 0
  mulLimbs (addBlock h (blockAt data i) front) r

/- The loop over the blocks. -/
def compressBlocks
    (r h : Limbs)
    (data : List UInt8) : Limbs :=
  (List.range ((data.length + 15) / 16)).foldl
    (compressBlock r data) h

/- `fully carry h` -/
def carryAll (h : Limbs) : Limbs :=
  let h2 := h.h2 + (h.h1 >>> 26)
  let h1 := h.h1 &&& 0x03ffffff
  let h3 := h.h3 + (h2 >>> 26)
  let h2 := h2 &&& 0x03ffffff
  let h4 := h.h4 + (h3 >>> 26)
  let h3 := h3 &&& 0x03ffffff
  let h0 := h.h0 + (h4 >>> 26) * 5
  { h0 := h0 &&& 0x03ffffff
    h1 := h1 + (h0 >>> 26)
    h2 := h2
    h3 := h3
    h4 := h4 &&& 0x03ffffff }

/- `compute h + -p` -/
def minusP (h : Limbs) : Limbs :=
  let t0 := h.h0 + 5
  let t1 := h.h1 + (t0 >>> 26)
  let t2 := h.h2 + (t1 >>> 26)
  let t3 := h.h3 + (t2 >>> 26)
  { h0 := t0 &&& 0x03ffffff
    h1 := t1 &&& 0x03ffffff
    h2 := t2 &&& 0x03ffffff
    h3 := t3 &&& 0x03ffffff
    h4 := h.h4 + (t3 >>> 26) - 0x04000000 }

/- `select h if h < p, or h + -p if h >= p` -/
def select (h t : Limbs) : Limbs :=
  let b := (t.h4 >>> 31) - 1
  { h0 := (h.h0 &&& ~~~b) ||| (t.h0 &&& b)
    h1 := (h.h1 &&& ~~~b) ||| (t.h1 &&& b)
    h2 := (h.h2 &&& ~~~b) ||| (t.h2 &&& b)
    h3 := (h.h3 &&& ~~~b) ||| (t.h3 &&& b)
    h4 := (h.h4 &&& ~~~b) ||| (t.h4 &&& b) }

def reduced (h : Limbs) : Limbs :=
  select (carryAll h) (minusP (carryAll h))

/- `h % (2^128)` and `(h + pad) % (2^128)`; the fifth word stays
   as it is. -/
def padded (h : Limbs) (pad : List UInt8) : Limbs :=
  let h0 := h.h0 ||| (h.h1 <<< 26)
  let h1 := (h.h1 >>> 6) ||| (h.h2 <<< 20)
  let h2 := (h.h2 >>> 12) ||| (h.h3 <<< 14)
  let h3 := (h.h3 >>> 18) ||| (h.h4 <<< 8)
  let d0 := h0.toUInt64 + (wordAt pad 0).toUInt64
  let d1 := h1.toUInt64 + (wordAt pad 1).toUInt64 + (d0 >>> 32)
  let d2 := h2.toUInt64 + (wordAt pad 2).toUInt64 + (d1 >>> 32)
  let d3 := h3.toUInt64 + (wordAt pad 3).toUInt64 + (d2 >>> 32)
  { h0 := d0.toUInt32
    h1 := d1.toUInt32
    h2 := d2.toUInt32
    h3 := d3.toUInt32
    h4 := h.h4 }

def _BRPoly1305Compress
    (h : Limbs)
    (key32 data : List UInt8)
    (final : Bool) : Limbs :=
  let r := clamped (key32.take 16)
  let h := compressBlocks r h data
  if final then
    padded (reduced h) ((key32.drop 16).take 16)
  else h

/- `h[0]` to `h[3]` -/
def macWords (h : Limbs) : List UInt32 :=
  [h.h0, h.h1, h.h2, h.h3]

def noLimbs : Limbs :=
  { h0 := 0, h1 := 0, h2 := 0, h3 := 0, h4 := 0 }

def BRPoly1305 (key32 data : List UInt8) : List UInt8 :=
  bytesOf
    (macWords (_BRPoly1305Compress noLimbs key32 data true))

------------------------------------------------------------
-- Sealed Messages
------------------------------------------------------------

open SealedValues (UINT32_MAX)

/- The calls for some bytes: the whole blocks, and the rest with
   zeros behind it. -/
def compressPadded
    (h : Limbs)
    (macKey bytes : List UInt8) : Limbs :=
  let front := bytes.length / 16 * 16
  let h :=
    _BRPoly1305Compress h macKey (bytes.take front) false
  let pad :=
    bytes.drop front ++
      List.replicate (16 - bytes.length % 16) 0
  if bytes.length % 16 ≠ 0 then
    _BRPoly1305Compress h macKey pad false
  else h

/- The state of the authenticator behind all of its calls. -/
def macState (macKey ad sealedBytes : List UInt8) : Limbs :=
  let h := compressPadded noLimbs macKey ad
  let h := compressPadded h macKey sealedBytes
  let pad :=
    littleEndian 8 ad.length ++
      littleEndian 8 sealedBytes.length
  _BRPoly1305Compress h macKey pad true

variable (key32 : List.Vector UInt8 32)
variable (nonce12 : List.Vector UInt8 12)

/- `b` holds whatever the stack of the cipher did. -/
def BRChacha20Poly1305AEADEncrypt
    (outLen : Option Nat)
    (b data ad : List UInt8) : Nat × List UInt8 :=
  match outLen with
  | none => (data.length + 16, [])
  | some outLen =>
      if outLen < data.length + 16 ∨
          data.length / 64 ≥ UINT32_MAX then (0, [])
      else
        let iv := nonceIv nonce12
        let counter := aeadCounter nonce12
        let macKey :=
          BRChacha20 key32 iv b (List.replicate 32 0) counter
        let out := BRChacha20 key32 iv b data (counter + 1)
        let h := macState macKey ad out
        (data.length + 16, out ++ bytesOf (macWords h))

/- The test of the two tags: only the last of the four words is
   compared with zero before they are joined. -/
def differs (mac h : List UInt32) : Bool :=
  ((mac.getD 0 0 ^^^ h.getD 0 0) |||
    (mac.getD 1 0 ^^^ h.getD 1 0) |||
    (mac.getD 2 0 ^^^ h.getD 2 0) |||
    (if mac.getD 3 0 ^^^ h.getD 3 0 ≠ 0 then 1 else 0)) ≠ 0

def BRChacha20Poly1305AEADDecrypt
    (outLen : Option Nat)
    (b data ad : List UInt8) : Nat × List UInt8 :=
  match outLen with
  | none =>
      (if data.length < 16 then 0 else data.length - 16, [])
  | some outLen =>
      if data.length < 16 ∨
          (data.length - 16) / 64 ≥ UINT32_MAX ∨
          outLen + 16 < data.length then (0, [])
      else
        let outLen := data.length - 16
        let iv := nonceIv nonce12
        let counter := aeadCounter nonce12
        let macKey :=
          BRChacha20 key32 iv b (List.replicate 32 0) counter
        let h := macState macKey ad (data.take outLen)
        let mac := wordsOf (data.drop outLen)
        let outLen :=
          if differs mac (macWords h) then 0 else outLen
        (outLen,
          BRChacha20 key32 iv b (data.take outLen)
            (counter + 1))

------------------------------------------------------------
-- One Message
------------------------------------------------------------

theorem blockAt_left
    {left right : List UInt8}
    {i : Nat}
    (hInside : i + 16 ≤ left.length) :
    blockAt (left ++ right) i = blockAt left i := by
  have hRoom : i + 16 ≤ (left ++ right).length := by
    rw [List.length_append]
    omega
  have hDrop : 16 ≤ (left.drop i).length := by
    rw [List.length_drop]
    omega
  rw [blockAt, blockAt, if_neg (Nat.not_lt_of_le hRoom),
    if_neg (Nat.not_lt_of_le hInside),
    List.drop_append_of_le_length (by omega),
    List.take_append_of_le_length hDrop]

theorem blockAt_right
    (left right : List UInt8)
    (i : Nat) :
    blockAt (left ++ right) (left.length + i) =
      blockAt right i := by
  have hDrop :
      (left ++ right).drop (left.length + i) =
        right.drop i := by
    rw [← List.drop_drop, List.drop_left]
  have hRest :
      (left ++ right).length - (left.length + i) =
        right.length - i := by
    rw [List.length_append, Nat.add_sub_add_left]
  have hMore :
      left.length + i + 16 > (left ++ right).length ↔
        i + 16 > right.length := by
    rw [List.length_append]
    omega
  rw [blockAt, blockAt, hDrop, hRest]
  simp only [hMore]

/- Whole blocks in front are those of their own. -/
theorem compressBlock_left
    (r h : Limbs)
    {left right : List UInt8}
    {k : Nat}
    (hInside : 16 * k + 16 ≤ left.length) :
    compressBlock r (left ++ right) h k =
      compressBlock r left h k := by
  have hRoom : 16 * k + 16 ≤ (left ++ right).length := by
    rw [List.length_append]
    omega
  rw [compressBlock, compressBlock]
  simp only [blockAt_left hInside, if_pos hRoom, if_pos hInside]

/- The blocks behind them. -/
theorem compressBlock_right
    (r h : Limbs)
    {left : List UInt8}
    {count : Nat}
    (hLeft : left.length = 16 * count)
    (right : List UInt8)
    (k : Nat) :
    compressBlock r (left ++ right) h (count + k) =
      compressBlock r right h k := by
  have hPlace : 16 * (count + k) = left.length + 16 * k := by
    rw [hLeft, Nat.mul_add]
  have hInside :
      left.length + 16 * k + 16 ≤ (left ++ right).length ↔
        16 * k + 16 ≤ right.length := by
    rw [List.length_append]
    omega
  rw [compressBlock, compressBlock]
  simp only [hPlace, blockAt_right, hInside]

theorem compressBlocks_append
    (r h : Limbs)
    {left : List UInt8}
    {count : Nat}
    (hLeft : left.length = 16 * count)
    (right : List UInt8) :
    compressBlocks r (compressBlocks r h left) right =
      compressBlocks r h (left ++ right) := by
  have hCount : (left.length + 15) / 16 = count := by omega
  have hTotal :
      ((left ++ right).length + 15) / 16 =
        count + (right.length + 15) / 16 := by
    rw [List.length_append]
    omega
  have hFront :
      (List.range count).foldl
          (compressBlock r (left ++ right)) h =
        (List.range count).foldl (compressBlock r left) h := by
    refine List.foldl_ext _ _ _ fun h k hK => ?_
    have hLess := List.mem_range.mp hK
    exact compressBlock_left r h (by omega)
  have hBack (h : Limbs) (k : Nat) :
      compressBlock r (left ++ right) h (count + k) =
        compressBlock r right h k :=
    compressBlock_right r h hLeft right k
  unfold compressBlocks
  rw [hTotal, hCount, List.range_add, List.foldl_append,
    List.foldl_map, hFront]
  simp only [hBack]

/- The calls go on where the last one stopped. -/
theorem compress_append
    (h : Limbs)
    (key32 : List UInt8)
    {left : List UInt8}
    {count : Nat}
    (hLeft : left.length = 16 * count)
    (right : List UInt8)
    (final : Bool) :
    _BRPoly1305Compress
        (_BRPoly1305Compress h key32 left false) key32 right
        final =
      _BRPoly1305Compress h key32 (left ++ right) final := by
  have hBlocks :=
    compressBlocks_append (clamped (key32.take 16)) h hLeft
      right
  simp only [_BRPoly1305Compress, Bool.false_eq_true,
    if_false, hBlocks]

/- Some bytes with zeros up to a whole block. -/
def filled (bytes : List UInt8) : List UInt8 :=
  bytes ++ List.replicate ((16 - bytes.length % 16) % 16) 0

theorem length_filled (bytes : List UInt8) :
    (filled bytes).length =
      16 * ((bytes.length + 15) / 16) := by
  rw [filled, List.length_append, List.length_replicate]
  omega

/- The calls for some bytes are one call for the filled
   bytes. -/
theorem compressPadded_eq
    (h : Limbs)
    (macKey bytes : List UInt8) :
    compressPadded h macKey bytes =
      _BRPoly1305Compress h macKey (filled bytes) false := by
  have hFront :
      (bytes.take (bytes.length / 16 * 16)).length =
        16 * (bytes.length / 16) := by
    rw [List.length_take]
    omega
  by_cases hRest : bytes.length % 16 = 0
  · have hWhole :
        bytes.take (bytes.length / 16 * 16) = bytes :=
      List.take_of_length_le (by omega)
    have hFilled : filled bytes = bytes := by
      rw [filled, hRest]
      exact List.append_nil bytes
    refine (if_neg (not_not_intro hRest)).trans ?_
    rw [hFilled, hWhole]
  · have hZeros :
        (16 - bytes.length % 16) % 16 =
          16 - bytes.length % 16 :=
      Nat.mod_eq_of_lt (by omega)
    have hFilled :
        bytes.take (bytes.length / 16 * 16) ++
            (bytes.drop (bytes.length / 16 * 16) ++
              List.replicate (16 - bytes.length % 16) 0) =
          filled bytes := by
      rw [← List.append_assoc, List.take_append_drop, filled,
        hZeros]
    refine (if_pos hRest).trans ?_
    rw [compress_append h macKey hFront, hFilled]

/- What the tag is computed over. -/
def macData (ad sealedBytes : List UInt8) : List UInt8 :=
  filled ad ++
    (filled sealedBytes ++
      (littleEndian 8 ad.length ++
        littleEndian 8 sealedBytes.length))

theorem macState_eq (macKey ad sealedBytes : List UInt8) :
    macState macKey ad sealedBytes =
      _BRPoly1305Compress noLimbs macKey
        (macData ad sealedBytes) true := by
  have hAd := length_filled ad
  have hSealed := length_filled sealedBytes
  rw [macState, compressPadded_eq, compressPadded_eq,
    compress_append _ macKey hSealed,
    compress_append _ macKey hAd, macData]

/-
  The code seals a message with the cipher that counts in 32
  bits, from block one on, and with the tag of one message under
  the first half of block zero.  It refuses a message on which
  the counter would run into the nonce.
-/
theorem AEADEncrypt_eq
    (outLen : Nat)
    (b data ad : List UInt8) :
    BRChacha20Poly1305AEADEncrypt key32 nonce12 (some outLen) b
        data ad =
      if outLen < data.length + 16 ∨
          data.length / 64 ≥ UINT32_MAX then (0, [])
      else
        (data.length + 16,
          nonceCipher key32 nonce12 data ++
            BRPoly1305
              ((block (nonceState key32 nonce12 0)).take 32)
              (macData ad
                (nonceCipher key32 nonce12 data))) := by
  split_ifs with hRefused
  · exact if_pos hRefused
  · have hShort : data.length / 64 < 2 ^ 32 - 1 :=
      Nat.lt_of_not_le fun hLong => hRefused (Or.inr hLong)
    have hOut := aeadData_eq key32 nonce12 b hShort
    refine (if_neg hRefused).trans ?_
    rw [hOut, aeadKey_eq, macState_eq, BRPoly1305]

------------------------------------------------------------
-- What Opens
------------------------------------------------------------

/- The words are joined to zero just when they are equal. -/
theorem differs_iff
    {mac h : List UInt32}
    (hMac : mac.length = 4)
    (hWords : h.length = 4) :
    differs mac h = true ↔ mac ≠ h := by
  rcases List.length_eq_four.mp hMac with ⟨a, b, c, d, rfl⟩
  rcases List.length_eq_four.mp hWords with
    ⟨e, f, g, k, rfl⟩
  have hLast :
      (if d ^^^ k ≠ 0 then (1 : UInt32) else 0) = 0 ↔
        d = k := by
    simp
  change
    decide
        ((a ^^^ e) ||| (b ^^^ f) ||| (c ^^^ g) |||
          (if d ^^^ k ≠ 0 then 1 else 0) ≠ 0) =
      true ↔ _
  rw [decide_eq_true_iff, ne_eq, UInt32.or_eq_zero_iff,
    UInt32.or_eq_zero_iff, UInt32.or_eq_zero_iff,
    UInt32.xor_eq_zero_iff, UInt32.xor_eq_zero_iff,
    UInt32.xor_eq_zero_iff, hLast]
  simp [and_assoc]

theorem wordsOf_bytesOf (words : List UInt32) :
    wordsOf (bytesOf words) = words := by
  induction words with
  | nil => rfl
  | cons word words hWords =>
      have hWord :
          ofLittleEndian (littleEndian 4 word.toNat) =
            word.toNat :=
        ofLittleEndian_littleEndian 4 word.toNat_lt
      change
        UInt32.ofNat
            (ofLittleEndian (littleEndian 4 word.toNat)) ::
          wordsOf (bytesOf words) = _
      rw [hWord, hWords, UInt32.ofNat_toNat]

theorem bytesOf_wordsOf
    {count : Nat}
    {bytes : List UInt8}
    (hBytes : bytes.length = 4 * count) :
    bytesOf (wordsOf bytes) = bytes := by
  induction count generalizing bytes with
  | zero =>
      rw [Nat.mul_zero, List.length_eq_zero_iff] at hBytes
      rw [hBytes]
      rfl
  | succ count hCount =>
      rcases bytes with
        _ | ⟨a, _ | ⟨b, _ | ⟨c, _ | ⟨d, bytes⟩⟩⟩⟩
      · cases hBytes
      · cases hBytes
      · cases hBytes
      · cases hBytes
      · simp only [List.length_cons] at hBytes
        have hLt : ofLittleEndian [a, b, c, d] < 256 ^ 4 :=
          ofLittleEndian_lt [a, b, c, d]
        have hWord :
            (UInt32.ofNat
              (ofLittleEndian [a, b, c, d])).toNat =
              ofLittleEndian [a, b, c, d] := by
          rw [UInt32.toNat_ofNat']
          exact Nat.mod_eq_of_lt (by omega)
        have hFront :
            littleEndian 4 (ofLittleEndian [a, b, c, d]) =
              [a, b, c, d] :=
          littleEndian_ofLittleEndian [a, b, c, d]
        have hRest : bytesOf (wordsOf bytes) = bytes :=
          hCount (by omega)
        change
          littleEndian 4
              (UInt32.ofNat
                (ofLittleEndian [a, b, c, d])).toNat ++
            bytesOf (wordsOf bytes) = _
        rw [hWord, hFront, hRest]
        rfl

/- The tag behind some sealed bytes. -/
def tagOf
    (ad sealedBytes : List UInt8) : List UInt8 :=
  bytesOf
    (macWords
      (macState
        (BRChacha20 key32 (nonceIv nonce12) []
          (List.replicate 32 0) (aeadCounter nonce12))
        ad sealedBytes))

theorem length_tagOf (ad sealedBytes : List UInt8) :
    (tagOf key32 nonce12 ad sealedBytes).length = 16 := by
  rw [tagOf, length_bytesOf]
  rfl

/- The comparison of the words is one of the bytes. -/
theorem differs_tag_iff
    {mac : List UInt8}
    (hMac : mac.length = 16)
    (h : Limbs) :
    differs (wordsOf mac) (macWords h) = true ↔
      mac ≠ bytesOf (macWords h) := by
  have hWords : (wordsOf mac).length = 4 :=
    length_wordsOf hMac
  rw [differs_iff hWords rfl, not_iff_not]
  have hBack : bytesOf (wordsOf mac) = mac :=
    bytesOf_wordsOf (show mac.length = 4 * 4 from hMac)
  constructor
  · intro hEq
    rw [← hEq, hBack]
  · intro hEq
    rw [hEq, wordsOf_bytesOf]

/- The cipher of the data. -/
def streamed (data : List UInt8) : List UInt8 :=
  BRChacha20 key32 (nonceIv nonce12) [] data
    (aeadCounter nonce12 + 1)

def nonceOf (nonce : List UInt8) : List.Vector UInt8 12 :=
  ⟨nonce.takeD 12 0, List.takeD_length _ _ _⟩

theorem nonceOf_toList : nonceOf nonce12.toList = nonce12 := by
  apply List.Vector.eq
  exact List.takeD_eq_take _ nonce12.toList_length.ge |>.trans
    (List.take_of_length_le nonce12.toList_length.le)

/- The code around the two tests of sizes, for messages that
   carry some data beside them. -/
def codeAead (ad : List UInt8) : SealedValues.AEAD where
  sealing := fun key nonce data =>
    let out := streamed key (nonceOf nonce) data
    out ++ tagOf key (nonceOf nonce) ad out
  opening := fun key nonce data =>
    let out := data.take (data.length - 16)
    if data.length < 16 ∨
        data.drop (data.length - 16) ≠
          tagOf key (nonceOf nonce) ad out then none
    else some (streamed key (nonceOf nonce) out)

theorem length_streamed (data : List UInt8) :
    (streamed key32 nonce12 data).length = data.length :=
  length_BRChacha20 _ _ _ _ _

theorem streamed_streamed (data : List UInt8) :
    streamed key32 nonce12 (streamed key32 nonce12 data) =
      data :=
  BRChacha20_BRChacha20 _ _ _ _ _ _

/- Some bytes, cut in front of a tag. -/
theorem cut_tag
    {out tag : List UInt8}
    (hTag : tag.length = 16) :
    (out ++ tag).take ((out ++ tag).length - 16) = out ∧
      (out ++ tag).drop ((out ++ tag).length - 16) = tag := by
  have hPlace : (out ++ tag).length - 16 = out.length := by
    rw [List.length_append, hTag, Nat.add_sub_cancel]
  rw [hPlace]
  exact ⟨List.take_left, List.drop_left⟩

theorem codeAead_isLaws (ad : List UInt8) :
    (codeAead ad).Laws where
  length_sealing := by
    intro key nonce data
    change (streamed key (nonceOf nonce) data ++ _).length = _
    rw [List.length_append, length_tagOf, length_streamed]
  opening_iff := by
    intro key nonce sealedData data
    constructor
    · intro hOpen
      change (if _ then none else some _) = some data at hOpen
      split_ifs at hOpen with hRefused
      rcases not_or.mp hRefused with ⟨_, hTag⟩
      change
        sealedData =
          streamed key (nonceOf nonce) data ++
            tagOf key (nonceOf nonce) ad
              (streamed key (nonceOf nonce) data)
      rw [← Option.some.inj hOpen, streamed_streamed,
        ← not_not.mp hTag, List.take_append_drop]
    · rintro rfl
      have hTag :=
        length_tagOf key (nonceOf nonce) ad
          (streamed key (nonceOf nonce) data)
      rcases @cut_tag (streamed key (nonceOf nonce) data) _
        hTag with ⟨hOut, hDrop⟩
      simp only [codeAead, hOut, hDrop, streamed_streamed]
      refine if_neg (not_or.mpr ⟨?_, not_not_intro rfl⟩)
      rw [List.length_append, hTag]
      omega

/- The code that seals, around the cipher with its tag. -/
theorem AEADEncrypt_codeAead
    (outLen : Option Nat)
    (b data ad : List UInt8) :
    BRChacha20Poly1305AEADEncrypt key32 nonce12 outLen b data
        ad =
      SealedValues.BRChacha20Poly1305AEADEncrypt (codeAead ad)
        outLen key32 nonce12.toList data := by
  have hFree (data : List UInt8) (counter : UInt64) :=
    BRChacha20_free key32 (nonceIv nonce12) b [] data counter
  cases outLen with
  | none => rfl
  | some outLen =>
      by_cases hRefused :
          outLen < data.length + 16 ∨
            UINT32_MAX ≤ data.length / 64
      · exact (if_pos hRefused).trans (if_pos hRefused).symm
      · refine (if_neg hRefused).trans ?_
        refine Eq.trans ?_ (if_neg hRefused).symm
        simp only [codeAead, nonceOf_toList, streamed, tagOf,
          hFree]

/- The code that opens: a wrong tag leaves nothing of it. -/
theorem AEADDecrypt_codeAead
    (outLen : Option Nat)
    (b data ad : List UInt8) :
    BRChacha20Poly1305AEADDecrypt key32 nonce12 outLen b data
        ad =
      SealedValues.BRChacha20Poly1305AEADDecrypt (codeAead ad)
        outLen key32 nonce12.toList data := by
  have hFree (data : List UInt8) (counter : UInt64) :=
    BRChacha20_free key32 (nonceIv nonce12) b [] data counter
  cases outLen with
  | none => rfl
  | some outLen =>
      by_cases hRefused :
          data.length < 16 ∨
            UINT32_MAX ≤ (data.length - 16) / 64 ∨
              outLen + 16 < data.length
      · exact (if_pos hRefused).trans (if_pos hRefused).symm
      · refine (if_neg hRefused).trans ?_
        refine Eq.trans ?_ (if_neg hRefused).symm
        have hLong : ¬ data.length < 16 := fun hLess =>
          hRefused (Or.inl hLess)
        have hMac :
            (data.drop (data.length - 16)).length = 16 := by
          rw [List.length_drop]
          omega
        have hDiffers :=
          differs_tag_iff hMac
            (macState
              (BRChacha20 key32 (nonceIv nonce12) []
                (List.replicate 32 0) (aeadCounter nonce12))
              ad (data.take (data.length - 16)))
        by_cases hTag :
            data.drop (data.length - 16) =
              tagOf key32 nonce12 ad
                (data.take (data.length - 16))
        · have hSame := mt hDiffers.mp (not_not_intro hTag)
          rw [hTag] at hSame
          simp only [codeAead, nonceOf_toList, streamed, hFree,
            hSame, hLong, hTag, ne_eq, not_true_eq_false,
            or_self, if_false, Bool.false_eq_true]
        · have hOther := hDiffers.mpr hTag
          simp only [codeAead, nonceOf_toList, hFree, hOther,
            hLong, hTag, ne_eq, not_false_eq_true, or_true,
            if_true]
          rfl

/-
  What was assumed of the cipher with its tag holds of the code,
  whatever the associated data: its two functions are the ones
  around such a cipher.
-/
theorem codeAead_laws (ad : List UInt8) :
    (codeAead ad).Laws ∧
      ∀ outLen b data,
        BRChacha20Poly1305AEADEncrypt key32 nonce12 outLen b
            data ad =
          SealedValues.BRChacha20Poly1305AEADEncrypt
            (codeAead ad) outLen key32 nonce12.toList data ∧
          BRChacha20Poly1305AEADDecrypt key32 nonce12 outLen b
              data ad =
            SealedValues.BRChacha20Poly1305AEADDecrypt
              (codeAead ad) outLen key32 nonce12.toList
              data := by
  refine ⟨codeAead_isLaws ad, fun outLen b data => ?_⟩
  exact
    ⟨AEADEncrypt_codeAead key32 nonce12 outLen b data ad,
      AEADDecrypt_codeAead key32 nonce12 outLen b data ad⟩

end Chacha

end PlusWallet
