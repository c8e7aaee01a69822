import PlusWallet.Cipher.BRPoly1305

/-
  The authenticator computes the standard's polynomial.

  Between two blocks its five words have 26 bits, but for a
  small carry in the second one, so that no sum of a turn
  overflows.

  Main declarations:
    * `Chacha.Bounded`, `Chacha.addBlock_spec`
    * `Chacha.MulFits`, `Chacha.mulLimbs_value`
    * `Chacha.clamped_spec`, `Chacha.reduced_spec`
    * `Chacha.stateBehind_spec`, `Chacha.poly1305`
    * `Chacha.poly1305_aead`
-/

namespace PlusWallet

namespace Chacha

open Bytes

open SealedValues (UINT32_MAX)

------------------------------------------------------------
-- Words and Numbers
------------------------------------------------------------

theorem toNat_low (x : UInt32) :
    (x &&& 0x03ffffff).toNat = x.toNat % 2 ^ 26 := by
  rw [UInt32.toNat_and]
  exact Nat.and_two_pow_sub_one_eq_mod _ 26

theorem toNat_shifted
    (x s : UInt32)
    (hShift : s.toNat < 32) :
    (x >>> s).toNat = x.toNat / 2 ^ s.toNat := by
  rw [UInt32.toNat_shiftRight, Nat.mod_eq_of_lt hShift,
    Nat.shiftRight_eq_div_pow]

/- A word with the next one above it. -/
theorem toNat_over
    (a b s t : UInt32)
    (hShift : s.toNat + t.toNat = 32)
    (hLow : 0 < s.toNat)
    (hA : a.toNat < 2 ^ t.toNat) :
    (a ||| (b <<< t)).toNat =
      a.toNat + b.toNat % 2 ^ s.toNat * 2 ^ t.toNat := by
  have hPow : 2 ^ 32 = 2 ^ s.toNat * 2 ^ t.toNat := by
    rw [← pow_add, hShift]
  have hB :
      (b <<< t).toNat =
        (b.toNat % 2 ^ s.toNat) <<< t.toNat := by
    have hT : t.toNat % 32 = t.toNat :=
      Nat.mod_eq_of_lt (by omega)
    rw [UInt32.toNat_shiftLeft, hT, Nat.shiftLeft_eq,
      Nat.shiftLeft_eq, hPow, Nat.mul_mod_mul_right]
  rw [UInt32.toNat_or, hB, Nat.or_comm,
    ← Nat.shiftLeft_add_eq_or_of_lt hA, Nat.shiftLeft_eq,
    Nat.add_comm]

/- The upper bits of a word, and the next word above them. -/
theorem toNat_spliced
    (a b s t : UInt32)
    (hShift : s.toNat + t.toNat = 32)
    (hLow : 0 < s.toNat)
    (hHigh : 0 < t.toNat) :
    ((a >>> s) ||| (b <<< t)).toNat =
      a.toNat / 2 ^ s.toNat +
        b.toNat % 2 ^ s.toNat * 2 ^ t.toNat := by
  have hUpper : (a >>> s).toNat = a.toNat / 2 ^ s.toNat :=
    toNat_shifted a s (by omega)
  have hPow : 2 ^ 32 = 2 ^ t.toNat * 2 ^ s.toNat := by
    rw [← pow_add, Nat.add_comm, hShift]
  have hA : (a >>> s).toNat < 2 ^ t.toNat := by
    rw [hUpper, Nat.div_lt_iff_lt_mul (Nat.two_pow_pos _),
      ← hPow]
    exact a.toNat_lt
  rw [toNat_over _ b s t hShift hLow hA, hUpper]

/- The number of five words. -/
def Limbs.value (h : Limbs) : Nat :=
  h.h0.toNat + 2 ^ 26 * h.h1.toNat + 2 ^ 52 * h.h2.toNat +
    2 ^ 78 * h.h3.toNat + 2 ^ 104 * h.h4.toNat

/- Sixteen bytes are four words. -/
theorem words_of_length
    {x : List UInt8}
    (hLength : x.length = 16) :
    ∃ a b c d : UInt32,
      wordsOf x = [a, b, c, d] ∧
        ofLittleEndian x =
          a.toNat + 2 ^ 32 * b.toNat + 2 ^ 64 * c.toNat +
            2 ^ 96 * d.toNat := by
  have hWords : (wordsOf x).length = 4 := length_wordsOf hLength
  have hBack : bytesOf (wordsOf x) = x :=
    bytesOf_wordsOf (show x.length = 4 * 4 from hLength)
  rcases List.length_eq_four.mp hWords with
    ⟨a, b, c, d, hEq⟩
  refine ⟨a, b, c, d, hEq, ?_⟩
  have hPow : 256 ^ 4 = 2 ^ 32 := by norm_num
  have hWord (word : UInt32) (rest : List UInt8) :
      ofLittleEndian (littleEndian 4 word.toNat ++ rest) =
        word.toNat + 2 ^ 32 * ofLittleEndian rest := by
    rw [ofLittleEndian_append, length_littleEndian,
      ofLittleEndian_littleEndian 4 word.toNat_lt, hPow]
  rw [← hBack, hEq]
  simp only [bytesOf, List.flatMap_cons, List.flatMap_nil,
    hWord, ofLittleEndian]
  omega

/- The words that the loop keeps. -/
structure Bounded (h : Limbs) : Prop where
  h0_lt : h.h0.toNat < 2 ^ 26
  h1_lt : h.h1.toNat < 2 ^ 26 + 64
  h2_lt : h.h2.toNat < 2 ^ 26
  h3_lt : h.h3.toNat < 2 ^ 26
  h4_lt : h.h4.toNat < 2 ^ 26

/- The words after a block was added. -/
structure Loaded (h : Limbs) : Prop where
  h0_lt : h.h0.toNat < 2 ^ 27
  h1_lt : h.h1.toNat < 2 ^ 27 + 64
  h2_lt : h.h2.toNat < 2 ^ 27
  h3_lt : h.h3.toNat < 2 ^ 27
  h4_lt : h.h4.toNat < 2 ^ 27

/- The number of a block with the bit in front of it. -/
theorem addBlock_spec
    {h : Limbs}
    (hBounded : Bounded h)
    {x : List UInt8}
    (hLength : x.length = 16)
    {front : UInt32}
    (hFront : front = 0 ∨ front = 0x01000000) :
    Loaded (addBlock h x front) ∧
      (addBlock h x front).value =
        h.value + ofLittleEndian x +
          2 ^ 104 * front.toNat := by
  rcases words_of_length hLength with
    ⟨a, b, c, d, hX, hNumber⟩
  have hA := a.toNat_lt
  have hB := b.toNat_lt
  have hC := c.toNat_lt
  have hD := d.toNat_lt
  have h0 : (a &&& 0x03ffffff).toNat = a.toNat % 2 ^ 26 :=
    toNat_low a
  have h1 :
      (((a >>> 26) ||| (b <<< 6)) &&& 0x03ffffff).toNat =
        (a.toNat / 2 ^ 26 + b.toNat % 2 ^ 26 * 2 ^ 6) %
          2 ^ 26 := by
    rw [toNat_low, toNat_spliced a b 26 6 rfl (by decide)
      (by decide)]
    rfl
  have h2 :
      (((b >>> 20) ||| (c <<< 12)) &&& 0x03ffffff).toNat =
        (b.toNat / 2 ^ 20 + c.toNat % 2 ^ 20 * 2 ^ 12) %
          2 ^ 26 := by
    rw [toNat_low, toNat_spliced b c 20 12 rfl (by decide)
      (by decide)]
    rfl
  have h3 :
      (((c >>> 14) ||| (d <<< 18)) &&& 0x03ffffff).toNat =
        (c.toNat / 2 ^ 14 + d.toNat % 2 ^ 14 * 2 ^ 18) %
          2 ^ 26 := by
    rw [toNat_low, toNat_spliced c d 14 18 rfl (by decide)
      (by decide)]
    rfl
  have h4 :
      ((d >>> 8) ||| front).toNat =
        d.toNat / 2 ^ 8 + front.toNat := by
    have hShift : (d >>> 8).toNat = d.toNat / 2 ^ 8 :=
      toNat_shifted d 8 (by decide)
    rcases hFront with hZero | hOne
    · rw [hZero, UInt32.or_zero, hShift]
      rfl
    · have hLess : d.toNat / 2 ^ 8 < 2 ^ 24 := by omega
      have hOr := Nat.two_pow_add_eq_or_of_lt hLess 1
      rw [hOne, UInt32.toNat_or, hShift, Nat.or_comm]
      rw [Nat.mul_one] at hOr
      rw [Nat.add_comm]
      exact hOr.symm
  have hSmall : front.toNat ≤ 2 ^ 24 := by
    rcases hFront with hZero | hOne
    · rw [hZero]
      decide
    · rw [hOne]
      decide
  rcases hBounded with ⟨b0, b1, b2, b3, b4⟩
  have hWord (k : Nat) :
      wordAt x k = [a, b, c, d].getD k 0 := by
    rw [wordAt, hX]
  have e0 :
      (addBlock h x front).h0.toNat =
        h.h0.toNat + a.toNat % 2 ^ 26 := by
    simp only [addBlock, hWord, UInt32.toNat_add]
    change (h.h0.toNat + (a &&& 0x03ffffff).toNat) % 2 ^ 32 = _
    rw [h0]
    omega
  have e1 :
      (addBlock h x front).h1.toNat =
        h.h1.toNat +
          (a.toNat / 2 ^ 26 + b.toNat % 2 ^ 26 * 2 ^ 6) %
            2 ^ 26 := by
    simp only [addBlock, hWord, UInt32.toNat_add]
    change (h.h1.toNat +
      (((a >>> 26) ||| (b <<< 6)) &&& 0x03ffffff).toNat) %
        2 ^ 32 = _
    rw [h1]
    omega
  have e2 :
      (addBlock h x front).h2.toNat =
        h.h2.toNat +
          (b.toNat / 2 ^ 20 + c.toNat % 2 ^ 20 * 2 ^ 12) %
            2 ^ 26 := by
    simp only [addBlock, hWord, UInt32.toNat_add]
    change (h.h2.toNat +
      (((b >>> 20) ||| (c <<< 12)) &&& 0x03ffffff).toNat) %
        2 ^ 32 = _
    rw [h2]
    omega
  have e3 :
      (addBlock h x front).h3.toNat =
        h.h3.toNat +
          (c.toNat / 2 ^ 14 + d.toNat % 2 ^ 14 * 2 ^ 18) %
            2 ^ 26 := by
    simp only [addBlock, hWord, UInt32.toNat_add]
    change (h.h3.toNat +
      (((c >>> 14) ||| (d <<< 18)) &&& 0x03ffffff).toNat) %
        2 ^ 32 = _
    rw [h3]
    omega
  have e4 :
      (addBlock h x front).h4.toNat =
        h.h4.toNat + (d.toNat / 2 ^ 8 + front.toNat) := by
    simp only [addBlock, hWord, UInt32.toNat_add]
    change (h.h4.toNat + ((d >>> 8) ||| front).toNat) %
      2 ^ 32 = _
    rw [h4]
    omega
  constructor
  · constructor
    · omega
    · omega
    · omega
    · omega
    · omega
  · rw [Limbs.value, e0, e1, e2, e3, e4, Limbs.value, hNumber]
    omega

------------------------------------------------------------
-- Products
------------------------------------------------------------

/- The words of the key. -/
structure Clamped (r : Limbs) : Prop where
  h0_lt : r.h0.toNat < 2 ^ 26
  h1_lt : r.h1.toNat < 2 ^ 26
  h2_lt : r.h2.toNat < 2 ^ 26
  h3_lt : r.h3.toNat < 2 ^ 26
  h4_lt : r.h4.toNat < 2 ^ 26

/- `p` -/
def prime : Nat := 2 ^ 130 - 5

/- The sums of a product, as numbers. -/
def sum0 (h r : Limbs) : Nat :=
  h.h0.toNat * r.h0.toNat +
    h.h1.toNat * r.h4.toNat * 5 +
    h.h2.toNat * r.h3.toNat * 5 +
    h.h3.toNat * r.h2.toNat * 5 +
    h.h4.toNat * r.h1.toNat * 5

def sum1 (h r : Limbs) : Nat :=
  h.h0.toNat * r.h1.toNat +
    h.h1.toNat * r.h0.toNat +
    h.h2.toNat * r.h4.toNat * 5 +
    h.h3.toNat * r.h3.toNat * 5 +
    h.h4.toNat * r.h2.toNat * 5

def sum2 (h r : Limbs) : Nat :=
  h.h0.toNat * r.h2.toNat +
    h.h1.toNat * r.h1.toNat +
    h.h2.toNat * r.h0.toNat +
    h.h3.toNat * r.h4.toNat * 5 +
    h.h4.toNat * r.h3.toNat * 5

def sum3 (h r : Limbs) : Nat :=
  h.h0.toNat * r.h3.toNat +
    h.h1.toNat * r.h2.toNat +
    h.h2.toNat * r.h1.toNat +
    h.h3.toNat * r.h0.toNat +
    h.h4.toNat * r.h4.toNat * 5

def sum4 (h r : Limbs) : Nat :=
  h.h0.toNat * r.h4.toNat +
    h.h1.toNat * r.h3.toNat +
    h.h2.toNat * r.h2.toNat +
    h.h3.toNat * r.h1.toNat +
    h.h4.toNat * r.h0.toNat

/- The same with the carries. -/
def column0 (h r : Limbs) : Nat :=
  sum0 h r

def column1 (h r : Limbs) : Nat :=
  sum1 h r + column0 h r / 2 ^ 26

def column2 (h r : Limbs) : Nat :=
  sum2 h r + column1 h r / 2 ^ 26

def column3 (h r : Limbs) : Nat :=
  sum3 h r + column2 h r / 2 ^ 26

def column4 (h r : Limbs) : Nat :=
  sum4 h r + column3 h r / 2 ^ 26

/- No sum of a product overflows its word. -/
structure MulFits (h r : Limbs) : Prop where
  d0_lt : column0 h r < 2 ^ 58
  d1_lt : column1 h r < 2 ^ 58
  d2_lt : column2 h r < 2 ^ 58
  d3_lt : column3 h r < 2 ^ 58
  d4_lt : column4 h r < 2 ^ 58
  h0_lt :
    column0 h r % 2 ^ 26 +
        column4 h r / 2 ^ 26 * 5 <
      2 ^ 32
  h1_lt :
    column1 h r % 2 ^ 26 +
        (column0 h r % 2 ^ 26 +
          column4 h r / 2 ^ 26 * 5) / 2 ^ 26 <
      2 ^ 32

theorem toNat_product (a b : UInt32) :
    (product a b).toNat = a.toNat * b.toNat := by
  have hLt : a.toNat * b.toNat < 2 ^ 32 * 2 ^ 32 :=
    Nat.mul_lt_mul'' a.toNat_lt b.toNat_lt
  rw [product, UInt64.toNat_mul, UInt32.toNat_toUInt64,
    UInt32.toNat_toUInt64]
  exact Nat.mod_eq_of_lt (by omega)

theorem toNat_carried
    {d : UInt64}
    (hLess : d.toNat < 2 ^ 58) :
    (carried d).toNat = d.toNat / 2 ^ 26 := by
  have hShift : (d >>> 26).toNat = d.toNat / 2 ^ 26 := by
    rw [UInt64.toNat_shiftRight, Nat.shiftRight_eq_div_pow]
    rfl
  rw [carried, UInt64.toNat_toUInt32, hShift]
  exact Nat.mod_eq_of_lt (by omega)

theorem toNat_low64 (d : UInt64) :
    (d &&& 0x03ffffff).toNat = d.toNat % 2 ^ 26 := by
  rw [UInt64.toNat_and]
  exact Nat.and_two_pow_sub_one_eq_mod _ 26

theorem toNat_lowest (d : UInt64) :
    (lowest d).toNat = d.toNat % 2 ^ 26 := by
  rw [lowest, UInt64.toNat_toUInt32, toNat_low64]
  omega

/- Five products in a sum with small factors. -/
theorem product_le
    {a b : UInt32}
    (hA : a.toNat < 2 ^ 27 + 64)
    (hB : b.toNat < 2 ^ 26) :
    a.toNat * b.toNat ≤ (2 ^ 27 + 63) * (2 ^ 26 - 1) :=
  Nat.mul_le_mul (by omega) (by omega)

theorem mulFits
    {h r : Limbs}
    (hLoaded : Loaded h)
    (hClamped : Clamped r) :
    MulFits h r := by
  have hProduct (a b : UInt32)
      (hA : a.toNat < 2 ^ 27 + 64)
      (hB : b.toNat < 2 ^ 26) :=
    product_le hA hB
  rcases hLoaded with ⟨a0, a1, a2, a3, a4⟩
  rcases hClamped with ⟨r0, r1, r2, r3, r4⟩
  have p00 := hProduct h.h0 r.h0 (by omega) r0
  have p01 := hProduct h.h0 r.h1 (by omega) r1
  have p02 := hProduct h.h0 r.h2 (by omega) r2
  have p03 := hProduct h.h0 r.h3 (by omega) r3
  have p04 := hProduct h.h0 r.h4 (by omega) r4
  have p10 := hProduct h.h1 r.h0 (by omega) r0
  have p11 := hProduct h.h1 r.h1 (by omega) r1
  have p12 := hProduct h.h1 r.h2 (by omega) r2
  have p13 := hProduct h.h1 r.h3 (by omega) r3
  have p14 := hProduct h.h1 r.h4 (by omega) r4
  have p20 := hProduct h.h2 r.h0 (by omega) r0
  have p21 := hProduct h.h2 r.h1 (by omega) r1
  have p22 := hProduct h.h2 r.h2 (by omega) r2
  have p23 := hProduct h.h2 r.h3 (by omega) r3
  have p24 := hProduct h.h2 r.h4 (by omega) r4
  have p30 := hProduct h.h3 r.h0 (by omega) r0
  have p31 := hProduct h.h3 r.h1 (by omega) r1
  have p32 := hProduct h.h3 r.h2 (by omega) r2
  have p33 := hProduct h.h3 r.h3 (by omega) r3
  have p34 := hProduct h.h3 r.h4 (by omega) r4
  have p40 := hProduct h.h4 r.h0 (by omega) r0
  have p41 := hProduct h.h4 r.h1 (by omega) r1
  have p42 := hProduct h.h4 r.h2 (by omega) r2
  have p43 := hProduct h.h4 r.h3 (by omega) r3
  have p44 := hProduct h.h4 r.h4 (by omega) r4
  have d0 : column0 h r < 2 ^ 58 := by
    unfold column0 sum0
    omega
  have d1 : column1 h r < 2 ^ 57 + 2 ^ 56 := by
    unfold column1 sum1
    omega
  have d2 : column2 h r < 2 ^ 57 := by
    unfold column2 sum2
    omega
  have d3 : column3 h r < 2 ^ 57 := by
    unfold column3 sum3
    omega
  have d4 :
      column4 h r < 5 * (2 ^ 53 + 2 ^ 33) := by
    unfold column4 sum4
    omega
  constructor
  · omega
  · omega
  · omega
  · omega
  · omega
  · omega
  · omega

/- The machine's sums are the numbers. -/
theorem products_spec
    {h r : Limbs}
    (hFits : MulFits h r) :
    (products h r).d0.toNat = sum0 h r ∧
      (products h r).d1.toNat = sum1 h r ∧
      (products h r).d2.toNat = sum2 h r ∧
      (products h r).d3.toNat = sum3 h r ∧
      (products h r).d4.toNat = sum4 h r := by
  have hFive : (5 : UInt64).toNat = 5 := rfl
  have h0 := hFits.d0_lt
  have h1 := hFits.d1_lt
  have h2 := hFits.d2_lt
  have h3 := hFits.d3_lt
  have h4 := hFits.d4_lt
  unfold column0 sum0 at h0
  unfold column1 sum1 at h1
  unfold column2 sum2 at h2
  unfold column3 sum3 at h3
  unfold column4 sum4 at h4
  refine ⟨?_, ?_, ?_, ?_, ?_⟩
  · simp only [products, UInt64.toNat_add, UInt64.toNat_mul,
      toNat_product, hFive, sum0]
    omega
  · simp only [products, UInt64.toNat_add, UInt64.toNat_mul,
      toNat_product, hFive, sum1]
    omega
  · simp only [products, UInt64.toNat_add, UInt64.toNat_mul,
      toNat_product, hFive, sum2]
    omega
  · simp only [products, UInt64.toNat_add, UInt64.toNat_mul,
      toNat_product, hFive, sum3]
    omega
  · simp only [products, UInt64.toNat_add, toNat_product,
      sum4]
    omega

/- One carry from a sum into the next. -/
theorem toNat_carry
    {d e : UInt64}
    {m n : Nat}
    (hD : d.toNat = m)
    (hE : e.toNat = n)
    (hSum : m + n / 2 ^ 26 < 2 ^ 58)
    (hCarry : n < 2 ^ 58) :
    (d + (carried e).toUInt64).toNat = m + n / 2 ^ 26 := by
  have hBits := toNat_carried (hE.trans_lt hCarry)
  rw [UInt64.toNat_add, UInt32.toNat_toUInt64, hBits, hD, hE]
  exact Nat.mod_eq_of_lt (by omega)

/- The words of the product. -/
theorem mulLimbs_words
    {h r : Limbs}
    (hFits : MulFits h r) :
    (mulLimbs h r).h0.toNat =
        (column0 h r % 2 ^ 26 +
          column4 h r / 2 ^ 26 * 5) % 2 ^ 26 ∧
      (mulLimbs h r).h1.toNat =
        column1 h r % 2 ^ 26 +
          (column0 h r % 2 ^ 26 +
            column4 h r / 2 ^ 26 * 5) / 2 ^ 26 ∧
      (mulLimbs h r).h2.toNat = column2 h r % 2 ^ 26 ∧
      (mulLimbs h r).h3.toNat = column3 h r % 2 ^ 26 ∧
      (mulLimbs h r).h4.toNat = column4 h r % 2 ^ 26 := by
  rcases products_spec hFits with ⟨p0, p1, p2, p3, p4⟩
  rcases hFits with ⟨d0, d1, d2, d3, d4, f0, f1⟩
  unfold mulLimbs
  generalize products h r = d at p0 p1 p2 p3 p4 ⊢
  have c1 := toNat_carry p1 p0 d1 d0
  have c2 := toNat_carry p2 c1 d2 d1
  have c3 := toNat_carry p3 c2 d3 d2
  have c4 := toNat_carry p4 c3 d4 d3
  have b4 := toNat_carried (c4.trans_lt d4)
  rw [c4] at b4
  have hFive : (5 : UInt32).toNat = 5 := rfl
  have hFold :
      (((d.d0 &&& 0x03ffffff) +
          (carried (d.d4 + (carried (d.d3 +
            (carried (d.d2 + (carried (d.d1 +
              (carried d.d0).toUInt64)).toUInt64)
              ).toUInt64)).toUInt64) * 5).toUInt64
          ).toUInt32).toNat =
        column0 h r % 2 ^ 26 +
          column4 h r / 2 ^ 26 * 5 := by
    rw [UInt64.toNat_toUInt32, UInt64.toNat_add, toNat_low64,
      UInt32.toNat_toUInt64, UInt32.toNat_mul, b4, hFive, p0]
    change (_ + column4 h r / 2 ^ 26 * 5 % 2 ^ 32) % 2 ^ 64 %
      2 ^ 32 = _
    unfold column0 at f0 ⊢
    omega
  refine ⟨?_, ?_, ?_, ?_, ?_⟩
  · exact (toNat_low _).trans (congrArg (· % 2 ^ 26) hFold)
  · refine
      (UInt32.toNat_add (lowest _)
        (_ >>> (26 : UInt32))).trans ?_
    rw [toNat_lowest, c1,
      toNat_shifted _ 26 (by decide), hFold]
    change (column1 h r % 2 ^ 26 +
      (column0 h r % 2 ^ 26 + column4 h r / 2 ^ 26 * 5) /
        2 ^ 26) % 2 ^ 32 = _
    exact Nat.mod_eq_of_lt f1
  · exact (toNat_lowest _).trans (congrArg (· % 2 ^ 26) c2)
  · exact (toNat_lowest _).trans (congrArg (· % 2 ^ 26) c3)
  · exact (toNat_lowest _).trans (congrArg (· % 2 ^ 26) c4)

/- The value of the product, up to the prime. -/
theorem mulLimbs_value
    {h r : Limbs}
    (hFits : MulFits h r) :
    (mulLimbs h r).value % prime =
      h.value * r.value % prime := by
  rcases mulLimbs_words hFits with ⟨w0, w1, w2, w3, w4⟩
  have hFold :
      (mulLimbs h r).value +
          column4 h r / 2 ^ 26 * prime =
        sum0 h r + 2 ^ 26 * sum1 h r + 2 ^ 52 * sum2 h r +
          2 ^ 78 * sum3 h r + 2 ^ 104 * sum4 h r := by
    rw [Limbs.value, w0, w1, w2, w3, w4]
    unfold column4 column3 column2 column1 column0 prime
    omega
  have hProduct :
      ∃ high,
        h.value * r.value =
          sum0 h r + 2 ^ 26 * sum1 h r + 2 ^ 52 * sum2 h r +
            2 ^ 78 * sum3 h r + 2 ^ 104 * sum4 h r +
            high * prime := by
    refine
      ⟨h.h1.toNat * r.h4.toNat + h.h2.toNat * r.h3.toNat +
          h.h3.toNat * r.h2.toNat + h.h4.toNat * r.h1.toNat +
          2 ^ 26 *
            (h.h2.toNat * r.h4.toNat +
              h.h3.toNat * r.h3.toNat +
              h.h4.toNat * r.h2.toNat) +
          2 ^ 52 *
            (h.h3.toNat * r.h4.toNat +
              h.h4.toNat * r.h3.toNat) +
          2 ^ 78 * (h.h4.toNat * r.h4.toNat), ?_⟩
    simp only [Limbs.value, sum0, sum1, sum2, sum3, sum4,
      prime]
    norm_num
    ring
  rcases hProduct with ⟨high, hHigh⟩
  rw [hHigh, Nat.add_mul_mod_self_right, ← hFold,
    Nat.add_mul_mod_self_right]

theorem mulLimbs_bounded
    {h r : Limbs}
    (hFits : MulFits h r) :
    Bounded (mulLimbs h r) := by
  rcases mulLimbs_words hFits with ⟨w0, w1, w2, w3, w4⟩
  have hFold := hFits.h0_lt
  constructor
  · omega
  · omega
  · omega
  · omega
  · omega

------------------------------------------------------------
-- The Key
------------------------------------------------------------

def clampMask : Nat := 0x0ffffffc0ffffffc0ffffffc0fffffff

theorem and_split (m n : Nat) :
    m &&& n =
      (m % 2 ^ 26 &&& n % 2 ^ 26) +
        2 ^ 26 * (m / 2 ^ 26 &&& n / 2 ^ 26) := by
  rw [← Nat.and_mod_two_pow, ← Nat.and_div_two_pow,
    Nat.mod_add_div]

theorem and_small
    {m n : Nat}
    (hSmall : n < 2 ^ 26) :
    m &&& n = m % 2 ^ 26 &&& n := by
  have hLess : m &&& n < 2 ^ 26 := Nat.and_lt_two_pow m hSmall
  have hMod := @Nat.and_mod_two_pow m n 26
  rwa [Nat.mod_eq_of_lt hLess, Nat.mod_eq_of_lt hSmall] at hMod

/- The five masks are the one of the whole key. -/
theorem clamped_spec
    {key32 : List UInt8}
    (hLength : key32.length = 16) :
    Clamped (clamped key32) ∧
      (clamped key32).value =
        ofLittleEndian key32 &&& clampMask := by
  rcases words_of_length hLength with
    ⟨a, b, c, d, hX, hNumber⟩
  have hWord (k : Nat) :
      wordAt key32 k = [a, b, c, d].getD k 0 := by
    rw [wordAt, hX]
  have hA := a.toNat_lt
  have hB := b.toNat_lt
  have hC := c.toNat_lt
  have hD := d.toNat_lt
  have e0 :
      (clamped key32).h0.toNat =
        a.toNat % 2 ^ 26 &&& 0x03ffffff := by
    simp only [clamped, hWord]
    change (a &&& 0x03ffffff).toNat = _
    rw [UInt32.toNat_and]
    exact and_small (by decide)
  have e1 :
      (clamped key32).h1.toNat =
        (a.toNat / 2 ^ 26 + b.toNat % 2 ^ 26 * 2 ^ 6) %
          2 ^ 26 &&& 0x03ffff03 := by
    simp only [clamped, hWord]
    change
      (((a >>> 26) ||| (b <<< 6)) &&& 0x03ffff03).toNat = _
    rw [UInt32.toNat_and, toNat_spliced a b 26 6 rfl (by decide)
      (by decide)]
    exact and_small (by decide)
  have e2 :
      (clamped key32).h2.toNat =
        (b.toNat / 2 ^ 20 + c.toNat % 2 ^ 20 * 2 ^ 12) %
          2 ^ 26 &&& 0x03ffc0ff := by
    simp only [clamped, hWord]
    change
      (((b >>> 20) ||| (c <<< 12)) &&& 0x03ffc0ff).toNat = _
    rw [UInt32.toNat_and, toNat_spliced b c 20 12 rfl
      (by decide) (by decide)]
    exact and_small (by decide)
  have e3 :
      (clamped key32).h3.toNat =
        (c.toNat / 2 ^ 14 + d.toNat % 2 ^ 14 * 2 ^ 18) %
          2 ^ 26 &&& 0x03f03fff := by
    simp only [clamped, hWord]
    change
      (((c >>> 14) ||| (d <<< 18)) &&& 0x03f03fff).toNat = _
    rw [UInt32.toNat_and, toNat_spliced c d 14 18 rfl
      (by decide) (by decide)]
    exact and_small (by decide)
  have e4 :
      (clamped key32).h4.toNat =
        d.toNat / 2 ^ 8 &&& 0x000fffff := by
    simp only [clamped, hWord]
    change ((d >>> 8) &&& 0x000fffff).toNat = _
    rw [UInt32.toNat_and, toNat_shifted d 8 (by decide)]
    rfl
  constructor
  · constructor
    · rw [e0]
      exact Nat.and_lt_two_pow _ (by decide)
    · rw [e1]
      exact Nat.and_lt_two_pow _ (by decide)
    · rw [e2]
      exact Nat.and_lt_two_pow _ (by decide)
    · rw [e3]
      exact Nat.and_lt_two_pow _ (by decide)
    · rw [e4]
      exact Nat.and_lt_two_pow _ (by decide)
  · have t0 :
        ofLittleEndian key32 % 2 ^ 26 = a.toNat % 2 ^ 26 := by
      omega
    have t1 :
        ofLittleEndian key32 / 2 ^ 26 % 2 ^ 26 =
          (a.toNat / 2 ^ 26 + b.toNat % 2 ^ 26 * 2 ^ 6) %
            2 ^ 26 := by
      omega
    have t2 :
        ofLittleEndian key32 / 2 ^ 26 / 2 ^ 26 % 2 ^ 26 =
          (b.toNat / 2 ^ 20 + c.toNat % 2 ^ 20 * 2 ^ 12) %
            2 ^ 26 := by
      omega
    have t3 :
        ofLittleEndian key32 / 2 ^ 26 / 2 ^ 26 / 2 ^ 26 %
            2 ^ 26 =
          (c.toNat / 2 ^ 14 + d.toNat % 2 ^ 14 * 2 ^ 18) %
            2 ^ 26 := by
      omega
    have t4 :
        ofLittleEndian key32 / 2 ^ 26 / 2 ^ 26 / 2 ^ 26 /
            2 ^ 26 =
          d.toNat / 2 ^ 8 := by
      omega
    rw [and_split (ofLittleEndian key32),
      and_split (ofLittleEndian key32 / 2 ^ 26),
      and_split (ofLittleEndian key32 / 2 ^ 26 / 2 ^ 26),
      and_split
        (ofLittleEndian key32 / 2 ^ 26 / 2 ^ 26 / 2 ^ 26),
      t0, t1, t2, t3, t4, Limbs.value, e0, e1, e2, e3, e4]
    norm_num [clampMask]
    ring

------------------------------------------------------------
-- The Remainder
------------------------------------------------------------

/- All words have 26 bits. -/
structure Canonical (h : Limbs) : Prop where
  h0_lt : h.h0.toNat < 2 ^ 26
  h1_lt : h.h1.toNat < 2 ^ 26
  h2_lt : h.h2.toNat < 2 ^ 26
  h3_lt : h.h3.toNat < 2 ^ 26
  h4_lt : h.h4.toNat < 2 ^ 26

theorem toNat_low_add
    {a b : UInt32}
    (hSum : a.toNat + b.toNat < 2 ^ 32) :
    (a + b).toNat = a.toNat + b.toNat := by
  rw [UInt32.toNat_add]
  exact Nat.mod_eq_of_lt hSum

theorem toNat_upper (x : UInt32) :
    (x >>> 26).toNat = x.toNat / 2 ^ 26 :=
  toNat_shifted x 26 (by decide)

theorem carryAll_spec
    {h : Limbs}
    (hBounded : Bounded h) :
    Canonical (carryAll h) ∧
      ∃ high,
        h.value = (carryAll h).value + high * prime := by
  rcases hBounded with ⟨b0, b1, b2, b3, b4⟩
  have c2 :
      (h.h2 + (h.h1 >>> 26)).toNat =
        h.h2.toNat + h.h1.toNat / 2 ^ 26 := by
    rw [UInt32.toNat_add, toNat_upper]
    omega
  have c3 :
      (h.h3 + ((h.h2 + (h.h1 >>> 26)) >>> 26)).toNat =
        h.h3.toNat +
          (h.h2.toNat + h.h1.toNat / 2 ^ 26) / 2 ^ 26 := by
    rw [UInt32.toNat_add, toNat_upper, c2]
    omega
  have c4 :
      (h.h4 + ((h.h3 +
          ((h.h2 + (h.h1 >>> 26)) >>> 26)) >>> 26)).toNat =
        h.h4.toNat +
          (h.h3.toNat +
            (h.h2.toNat + h.h1.toNat / 2 ^ 26) / 2 ^ 26) /
              2 ^ 26 := by
    rw [UInt32.toNat_add, toNat_upper, c3]
    omega
  have hFive : (5 : UInt32).toNat = 5 := rfl
  have c0 :
      (h.h0 + ((h.h4 + ((h.h3 +
          ((h.h2 + (h.h1 >>> 26)) >>> 26)) >>> 26)) >>> 26) *
            5).toNat =
        h.h0.toNat +
          (h.h4.toNat +
            (h.h3.toNat +
              (h.h2.toNat + h.h1.toNat / 2 ^ 26) / 2 ^ 26) /
                2 ^ 26) / 2 ^ 26 * 5 := by
    rw [UInt32.toNat_add, UInt32.toNat_mul, toNat_upper, c4,
      hFive]
    omega
  have c1 :
      (carryAll h).h1.toNat =
        h.h1.toNat % 2 ^ 26 +
          (h.h0.toNat +
            (h.h4.toNat +
              (h.h3.toNat +
                (h.h2.toNat + h.h1.toNat / 2 ^ 26) / 2 ^ 26) /
                  2 ^ 26) / 2 ^ 26 * 5) / 2 ^ 26 := by
    refine (UInt32.toNat_add (_ &&& 0x03ffffff) _).trans ?_
    rw [toNat_low, toNat_upper, c0]
    omega
  have w0 := (toNat_low _).trans (congrArg (· % 2 ^ 26) c0)
  have w2 := (toNat_low _).trans (congrArg (· % 2 ^ 26) c2)
  have w3 := (toNat_low _).trans (congrArg (· % 2 ^ 26) c3)
  have w4 := (toNat_low _).trans (congrArg (· % 2 ^ 26) c4)
  change (carryAll h).h0.toNat = _ at w0
  change (carryAll h).h2.toNat = _ at w2
  change (carryAll h).h3.toNat = _ at w3
  change (carryAll h).h4.toNat = _ at w4
  constructor
  · constructor
    · omega
    · omega
    · omega
    · omega
    · omega
  · refine
      ⟨(h.h4.toNat +
          (h.h3.toNat +
            (h.h2.toNat + h.h1.toNat / 2 ^ 26) / 2 ^ 26) /
              2 ^ 26) / 2 ^ 26, ?_⟩
    rw [Limbs.value, Limbs.value, w0, c1, w2, w3, w4, prime]
    omega

/- The difference, or a last word below zero. -/
theorem minusP_spec
    {h : Limbs}
    (hCanonical : Canonical h) :
    (prime ≤ h.value →
      Canonical (minusP h) ∧
        h.value = (minusP h).value + prime) ∧
      (h.value < prime →
        2 ^ 31 ≤ (minusP h).h4.toNat) := by
  rcases hCanonical with ⟨b0, b1, b2, b3, b4⟩
  have hFive : (5 : UInt32).toNat = 5 := rfl
  have c0 : (h.h0 + 5).toNat = h.h0.toNat + 5 := by
    rw [UInt32.toNat_add, hFive]
    exact Nat.mod_eq_of_lt (by omega)
  have c1 :
      (h.h1 + ((h.h0 + 5) >>> 26)).toNat =
        h.h1.toNat + (h.h0.toNat + 5) / 2 ^ 26 := by
    rw [UInt32.toNat_add, toNat_upper, c0]
    omega
  have c2 :
      (h.h2 + ((h.h1 + ((h.h0 + 5) >>> 26)) >>> 26)).toNat =
        h.h2.toNat +
          (h.h1.toNat + (h.h0.toNat + 5) / 2 ^ 26) /
            2 ^ 26 := by
    rw [UInt32.toNat_add, toNat_upper, c1]
    omega
  have c3 :
      (h.h3 + ((h.h2 + ((h.h1 +
          ((h.h0 + 5) >>> 26)) >>> 26)) >>> 26)).toNat =
        h.h3.toNat +
          (h.h2.toNat +
            (h.h1.toNat + (h.h0.toNat + 5) / 2 ^ 26) /
              2 ^ 26) / 2 ^ 26 := by
    rw [UInt32.toNat_add, toNat_upper, c2]
    omega
  have w0 := (toNat_low _).trans (congrArg (· % 2 ^ 26) c0)
  have w1 := (toNat_low _).trans (congrArg (· % 2 ^ 26) c1)
  have w2 := (toNat_low _).trans (congrArg (· % 2 ^ 26) c2)
  have w3 := (toNat_low _).trans (congrArg (· % 2 ^ 26) c3)
  change (minusP h).h0.toNat = _ at w0
  change (minusP h).h1.toNat = _ at w1
  change (minusP h).h2.toNat = _ at w2
  change (minusP h).h3.toNat = _ at w3
  have w4 :
      (minusP h).h4.toNat =
        (2 ^ 32 - 2 ^ 26 +
          (h.h4.toNat +
            (h.h3.toNat +
              (h.h2.toNat +
                (h.h1.toNat + (h.h0.toNat + 5) / 2 ^ 26) /
                  2 ^ 26) / 2 ^ 26) / 2 ^ 26)) % 2 ^ 32 := by
    refine (UInt32.toNat_sub _ (0x04000000 : UInt32)).trans ?_
    rw [UInt32.toNat_add, toNat_upper, c3]
    change
      (2 ^ 32 - 2 ^ 26 + (h.h4.toNat + _) % 2 ^ 32) %
        2 ^ 32 = _
    omega
  constructor
  · intro hPrime
    rw [Limbs.value, prime] at hPrime
    constructor
    · constructor
      · omega
      · omega
      · omega
      · omega
      · omega
    · rw [Limbs.value, Limbs.value, w0, w1, w2, w3, w4, prime]
      omega
  · intro hPrime
    rw [Limbs.value, prime] at hPrime
    omega

theorem select_upper
    {h t : Limbs}
    (hUpper : t.h4.toNat < 2 ^ 26) :
    select h t = t := by
  have hShift : t.h4 >>> 31 = 0 := by
    rw [← UInt32.toNat_inj,
      toNat_shifted _ 31 (by decide)]
    exact Nat.div_eq_of_lt (hUpper.trans (by decide))
  have hNot : ~~~((0 : UInt32) - 1) = 0 := by decide
  have hAll (x : UInt32) : x &&& ((0 : UInt32) - 1) = x := by
    simp
  rw [select]
  simp only [hShift, hNot, hAll, UInt32.and_zero,
    UInt32.zero_or]

theorem select_lower
    {h t : Limbs}
    (hLower : 2 ^ 31 ≤ t.h4.toNat) :
    select h t = h := by
  have hShift : t.h4 >>> 31 = 1 := by
    have hLess := t.h4.toNat_lt
    rw [← UInt32.toNat_inj,
      toNat_shifted _ 31 (by decide)]
    change t.h4.toNat / 2 ^ 31 = 1
    omega
  have hNone : (1 : UInt32) - 1 = 0 := by decide
  have hAll (x : UInt32) : x &&& ~~~(0 : UInt32) = x := by
    simp
  rw [select]
  simp only [hShift, hNone, hAll, UInt32.and_zero,
    UInt32.or_zero]

/- The remainder of what the loop leaves. -/
theorem reduced_spec
    {h : Limbs}
    (hBounded : Bounded h) :
    Canonical (reduced h) ∧
      (reduced h).value = h.value % prime := by
  rcases carryAll_spec hBounded with
    ⟨hCanonical, high, hHigh⟩
  rcases minusP_spec hCanonical with ⟨hUpper, hLower⟩
  rw [reduced, hHigh, Nat.add_mul_mod_self_right]
  have hBelow : (carryAll h).value < 2 ^ 130 := by
    rcases hCanonical with ⟨b0, b1, b2, b3, b4⟩
    rw [Limbs.value]
    omega
  by_cases hPrime : prime ≤ (carryAll h).value
  · rcases hUpper hPrime with ⟨hFits, hValue⟩
    rw [select_upper hFits.h4_lt]
    refine ⟨hFits, ?_⟩
    rw [hValue, Nat.add_mod_right, Nat.mod_eq_of_lt]
    unfold prime at hValue ⊢
    omega
  · have hLess : (carryAll h).value < prime :=
      Nat.lt_of_not_le hPrime
    rw [select_lower (hLower hLess)]
    exact ⟨hCanonical, (Nat.mod_eq_of_lt hLess).symm⟩

theorem littleEndian_sixteen (number : Nat) :
    littleEndian 16 number =
      littleEndian 4 (number % 2 ^ 32) ++
        (littleEndian 4 (number / 2 ^ 32 % 2 ^ 32) ++
          (littleEndian 4 (number / 2 ^ 64 % 2 ^ 32) ++
            littleEndian 4 (number / 2 ^ 96 % 2 ^ 32))) := by
  have hMod (n : Nat) :
      littleEndian 4 (n % 2 ^ 32) = littleEndian 4 n :=
    littleEndian_mod 4 n
  have hSplit :=
    (littleEndian_add 4 12 number).trans
      (congrArg _ ((littleEndian_add 4 8 _).trans
        (congrArg _ (littleEndian_add 4 4 _))))
  rw [Nat.div_div_eq_div_mul, Nat.div_div_eq_div_mul]
    at hSplit
  rw [hMod, hMod, hMod, hMod]
  exact hSplit

/- The words of a number. -/
theorem words_of_sum
    {e0 e1 e2 e3 number : Nat}
    (h0 : e0 < 2 ^ 32)
    (h1 : e1 < 2 ^ 32)
    (h2 : e2 < 2 ^ 32)
    (h3 : e3 < 2 ^ 32)
    (hNumber :
      number =
        e0 + 2 ^ 32 * e1 + 2 ^ 64 * e2 + 2 ^ 96 * e3) :
    number % 2 ^ 32 = e0 ∧ number / 2 ^ 32 % 2 ^ 32 = e1 ∧
      number / 2 ^ 64 % 2 ^ 32 = e2 ∧
      number / 2 ^ 96 % 2 ^ 32 = e3 := by
  omega

/- An addition of four words with its carries. -/
theorem sum_of_words
    (v0 v1 v2 v3 x0 x1 x2 x3 high : Nat) :
    (v0 + 2 ^ 32 * v1 + 2 ^ 64 * v2 + 2 ^ 96 * v3 +
        2 ^ 128 * high +
        (x0 + 2 ^ 32 * x1 + 2 ^ 64 * x2 + 2 ^ 96 * x3)) %
        2 ^ 128 =
      (v0 + x0) % 2 ^ 32 +
        2 ^ 32 * ((v1 + x1 + (v0 + x0) / 2 ^ 32) % 2 ^ 32) +
        2 ^ 64 *
          ((v2 + x2 +
            (v1 + x1 + (v0 + x0) / 2 ^ 32) / 2 ^ 32) %
              2 ^ 32) +
        2 ^ 96 *
          ((v3 + x3 +
            (v2 + x2 +
              (v1 + x1 + (v0 + x0) / 2 ^ 32) / 2 ^ 32) /
                2 ^ 32) % 2 ^ 32) := by
  omega

/- The carry of an addition in words. -/
theorem toNat_addWords
    (u a : UInt32)
    {carry : UInt64}
    {number : Nat}
    (hCarry : carry.toNat = number)
    (hSmall : number < 2 ^ 32) :
    (u.toUInt64 + a.toUInt64 + carry).toNat =
      u.toNat + a.toNat + number := by
  have hU := u.toNat_lt
  have hA := a.toNat_lt
  rw [UInt64.toNat_add, UInt64.toNat_add,
    UInt32.toNat_toUInt64, UInt32.toNat_toUInt64, hCarry]
  omega

/- The four words of the tag. -/
theorem padded_spec
    {h : Limbs}
    (hCanonical : Canonical h)
    {pad : List UInt8}
    (hLength : pad.length = 16) :
    bytesOf (macWords (padded h pad)) =
      littleEndian 16
        ((h.value + ofLittleEndian pad) % 2 ^ 128) := by
  rcases words_of_length hLength with
    ⟨a, b, c, d, hX, hNumber⟩
  have p0 : wordAt pad 0 = a := by
    rw [wordAt, hX]
    rfl
  have p1 : wordAt pad 1 = b := by
    rw [wordAt, hX]
    rfl
  have p2 : wordAt pad 2 = c := by
    rw [wordAt, hX]
    rfl
  have p3 : wordAt pad 3 = d := by
    rw [wordAt, hX]
    rfl
  have hA := a.toNat_lt
  have hB := b.toNat_lt
  have hC := c.toNat_lt
  have hD := d.toNat_lt
  rcases hCanonical with ⟨b0, b1, b2, b3, b4⟩
  have w0 :
      (h.h0 ||| (h.h1 <<< 26)).toNat =
        h.h0.toNat + h.h1.toNat % 2 ^ 6 * 2 ^ 26 :=
    toNat_over h.h0 h.h1 6 26 rfl (by decide) b0
  have s1 : (h.h1 >>> 6).toNat = h.h1.toNat / 2 ^ 6 :=
    toNat_shifted h.h1 6 (by decide)
  have w1 :
      ((h.h1 >>> 6) ||| (h.h2 <<< 20)).toNat =
        (h.h1 >>> 6).toNat +
          h.h2.toNat % 2 ^ 12 * 2 ^ 20 :=
    toNat_over (h.h1 >>> 6) h.h2 12 20 rfl (by decide) (by
      change _ < 2 ^ 20
      omega)
  have s2 : (h.h2 >>> 12).toNat = h.h2.toNat / 2 ^ 12 :=
    toNat_shifted h.h2 12 (by decide)
  have w2 :
      ((h.h2 >>> 12) ||| (h.h3 <<< 14)).toNat =
        (h.h2 >>> 12).toNat +
          h.h3.toNat % 2 ^ 18 * 2 ^ 14 :=
    toNat_over (h.h2 >>> 12) h.h3 18 14 rfl (by decide) (by
      change _ < 2 ^ 14
      omega)
  have s3 : (h.h3 >>> 18).toNat = h.h3.toNat / 2 ^ 18 :=
    toNat_shifted h.h3 18 (by decide)
  have w3 :
      ((h.h3 >>> 18) ||| (h.h4 <<< 8)).toNat =
        (h.h3 >>> 18).toNat +
          h.h4.toNat % 2 ^ 24 * 2 ^ 8 :=
    toNat_over (h.h3 >>> 18) h.h4 24 8 rfl (by decide) (by
      change _ < 2 ^ 8
      omega)
  rw [s1] at w1
  rw [s2] at w2
  rw [s3] at w3
  have hCarry (x : UInt64) :
      (x >>> 32).toNat = x.toNat / 2 ^ 32 := by
    rw [UInt64.toNat_shiftRight, Nat.shiftRight_eq_div_pow]
    rfl
  have hWords :
      bytesOf (macWords (padded h pad)) =
        littleEndian 4 (padded h pad).h0.toNat ++
          (littleEndian 4 (padded h pad).h1.toNat ++
            (littleEndian 4 (padded h pad).h2.toNat ++
              (littleEndian 4 (padded h pad).h3.toNat ++
                []))) := rfl
  rw [hWords, List.append_nil, littleEndian_sixteen]
  simp only [padded, p0, p1, p2, p3, UInt64.toNat_toUInt32]
  rw [Limbs.value, hNumber]
  generalize h.h0 ||| (h.h1 <<< 26) = u0 at w0 ⊢
  generalize (h.h1 >>> 6) ||| (h.h2 <<< 20) = u1 at w1 ⊢
  generalize (h.h2 >>> 12) ||| (h.h3 <<< 14) = u2 at w2 ⊢
  generalize (h.h3 >>> 18) ||| (h.h4 <<< 8) = u3 at w3 ⊢
  have l0 := u0.toNat_lt
  have l1 := u1.toNat_lt
  have l2 := u2.toNat_lt
  have l3 := u3.toNat_lt
  have d0 :
      (u0.toUInt64 + a.toUInt64).toNat =
        u0.toNat + a.toNat := by
    rw [UInt64.toNat_add, UInt32.toNat_toUInt64,
      UInt32.toNat_toUInt64]
    omega
  have k0 := (hCarry _).trans (congrArg (· / 2 ^ 32) d0)
  have d1 := toNat_addWords u1 b k0 (by omega)
  have k1 := (hCarry _).trans (congrArg (· / 2 ^ 32) d1)
  have d2 := toNat_addWords u2 c k1 (by omega)
  have k2 := (hCarry _).trans (congrArg (· / 2 ^ 32) d2)
  have d3 := toNat_addWords u3 d k2 (by omega)
  have hValue :
      h.h0.toNat + 2 ^ 26 * h.h1.toNat +
            2 ^ 52 * h.h2.toNat + 2 ^ 78 * h.h3.toNat +
          2 ^ 104 * h.h4.toNat =
        u0.toNat + 2 ^ 32 * u1.toNat + 2 ^ 64 * u2.toNat +
          2 ^ 96 * u3.toNat +
          2 ^ 128 * (h.h4.toNat / 2 ^ 24) := by
    clear hCarry k0 k1 k2 d0 d1 d2 d3
    omega
  rw [d0, d1, d2, d3, hValue, sum_of_words]
  have hSmall (n : Nat) : n % 2 ^ 32 < 2 ^ 32 :=
    Nat.mod_lt n (Nat.two_pow_pos 32)
  rcases words_of_sum (hSmall _) (hSmall _) (hSmall _)
    (hSmall _) rfl with ⟨e0, e1, e2, e3⟩
  rw [e0, e1, e2, e3]

------------------------------------------------------------
-- The Tag of a Message
------------------------------------------------------------

/- The number of a block with a mark behind it. -/
def blockNumber (data : List UInt8) (k : Nat) : Nat :=
  ofLittleEndian ((data.drop (16 * k)).take 16 ++ [1])

def blockCount (data : List UInt8) : Nat :=
  (data.length + 15) / 16

/- The bit in front of a whole block. -/
def frontOf (data : List UInt8) (k : Nat) : UInt32 :=
  if 16 * k + 16 ≤ data.length then 0x01000000 else 0

theorem blockAt_spec (data : List UInt8) (k : Nat) :
    (blockAt data (16 * k)).length = 16 ∧
      ofLittleEndian (blockAt data (16 * k)) +
          2 ^ 104 * (frontOf data k).toNat =
        blockNumber data k := by
  by_cases hWhole : 16 * k + 16 ≤ data.length
  · have hLength :
        ((data.drop (16 * k)).take 16).length = 16 := by
      rw [List.length_take, List.length_drop]
      omega
    rw [blockAt, if_neg (Nat.not_lt_of_le hWhole), frontOf,
      if_pos hWhole, blockNumber, ofLittleEndian_append,
      hLength]
    refine ⟨rfl, ?_⟩
    have hOne : (0x01000000 : UInt32).toNat = 2 ^ 24 := rfl
    have hMark : ofLittleEndian [1] = 1 := rfl
    rw [hOne, hMark]
    norm_num
  · have hRest : (data.drop (16 * k)).length =
        data.length - 16 * k := List.length_drop
    have hTake :
        (data.drop (16 * k)).take 16 = data.drop (16 * k) :=
      List.take_of_length_le (by omega)
    rw [blockAt, if_pos (Nat.lt_of_not_le hWhole), frontOf,
      if_neg hWhole, blockNumber, hTake]
    constructor
    · rw [List.length_append, List.length_cons,
        List.length_replicate, hRest]
      omega
    · rw [ofLittleEndian_append, ofLittleEndian_append,
        ofLittleEndian, ofLittleEndian_zeros]
      rfl

/- One turn of the loop over the blocks. -/
theorem compressBlock_spec
    {r h : Limbs}
    (hClamped : Clamped r)
    (hBounded : Bounded h)
    (data : List UInt8)
    (k : Nat) :
    MulFits
        (addBlock h (blockAt data (16 * k)) (frontOf data k))
        r ∧
      (addBlock h (blockAt data (16 * k))
        (frontOf data k)).value =
          h.value + blockNumber data k ∧
      Bounded (compressBlock r data h k) ∧
      (compressBlock r data h k).value % prime =
        (h.value + blockNumber data k) * r.value % prime := by
  rcases blockAt_spec data k with ⟨hLength, hNumber⟩
  have hFront : frontOf data k = 0 ∨
      frontOf data k = 0x01000000 := by
    rw [frontOf]
    split_ifs
    · exact Or.inr rfl
    · exact Or.inl rfl
  rcases addBlock_spec hBounded hLength hFront with
    ⟨hLoaded, hValue⟩
  rw [Nat.add_assoc, hNumber] at hValue
  have hFits := mulFits hLoaded hClamped
  have hTurn :
      compressBlock r data h k =
        mulLimbs
          (addBlock h (blockAt data (16 * k))
            (frontOf data k)) r := rfl
  rw [hTurn, mulLimbs_value hFits, hValue]
  exact ⟨hFits, rfl, mulLimbs_bounded hFits, rfl⟩

/- The state behind so many blocks. -/
def stateBehind
    (r : Limbs)
    (data : List UInt8)
    (n : Nat) : Limbs :=
  (List.range n).foldl (compressBlock r data) noLimbs

/- The blocks by the powers of the key. -/
def polynomial
    (r : Nat)
    (data : List UInt8)
    (n : Nat) : Nat :=
  ∑ k ∈ Finset.range n, blockNumber data k * r ^ (n - k)

theorem polynomial_succ
    (r : Nat)
    (data : List UInt8)
    (n : Nat) :
    polynomial r data (n + 1) =
      (polynomial r data n + blockNumber data n) * r := by
  rw [polynomial, Finset.sum_range_succ, polynomial,
    Nat.add_mul, Finset.sum_mul, Nat.add_sub_cancel_left,
    pow_one]
  congr 1
  refine Finset.sum_congr rfl fun k hK => ?_
  have hLess := Finset.mem_range.mp hK
  have hPower : n + 1 - k = (n - k) + 1 := by omega
  rw [hPower, pow_succ, Nat.mul_assoc]

/- The loop keeps the polynomial. -/
theorem stateBehind_spec
    {r : Limbs}
    (hClamped : Clamped r)
    (data : List UInt8)
    (n : Nat) :
    Bounded (stateBehind r data n) ∧
      (stateBehind r data n).value % prime =
        polynomial r.value data n % prime := by
  induction n with
  | zero =>
      have hZero : Bounded noLimbs := by
        constructor <;> decide
      exact ⟨hZero, rfl⟩
  | succ n hN =>
      rcases hN with ⟨hBounded, hValue⟩
      rcases compressBlock_spec hClamped hBounded data n with
        ⟨_, _, hNext, hProduct⟩
      have hTurn :
          stateBehind r data (n + 1) =
            compressBlock r data (stateBehind r data n) n := by
        rw [stateBehind, List.range_succ, List.foldl_append]
        rfl
      rw [hTurn, polynomial_succ]
      refine ⟨hNext, hProduct.trans ?_⟩
      exact
        Nat.ModEq.mul_right _ (Nat.ModEq.add_right _ hValue)

/- The tag of a message, as the standard has it. -/
def poly1305
    (key32 : List.Vector UInt8 32)
    (data : List UInt8) : Nat :=
  let r := ofLittleEndian (key32.toList.take 16) &&& clampMask
  let s := ofLittleEndian (key32.toList.drop 16)
  (polynomial r data (blockCount data) % prime + s) % 2 ^ 128

theorem BRPoly1305_eq
    (key32 : List.Vector UInt8 32)
    (data : List UInt8) :
    BRPoly1305 key32.toList data =
      littleEndian 16 (poly1305 key32 data) := by
  have hKey : key32.toList.length = 32 := key32.2
  have hR : (key32.toList.take 16).length = 16 := by
    rw [List.length_take, hKey]
    rfl
  have hS : (key32.toList.drop 16).length = 16 := by
    rw [List.length_drop, hKey]
  have hPad :
      (key32.toList.drop 16).take 16 = key32.toList.drop 16 :=
    List.take_of_length_le hS.le
  rcases clamped_spec hR with ⟨hClamped, hValue⟩
  rcases stateBehind_spec hClamped data (blockCount data) with
    ⟨hBounded, hPolynomial⟩
  rcases reduced_spec hBounded with ⟨hCanonical, hReduced⟩
  have hTag := padded_spec hCanonical hS
  rw [hReduced, hPolynomial, hValue] at hTag
  rw [BRPoly1305, poly1305, ← hTag, ← hPad]
  rfl

/- No sum of any turn overflows its word: the block is added
   exactly, and so are the products. -/
def NoOverflow
    (r : Limbs)
    (data : List UInt8)
    (k : Nat) : Prop :=
  let h := stateBehind r data k
  let loaded :=
    addBlock h (blockAt data (16 * k)) (frontOf data k)
  loaded.value = h.value + blockNumber data k ∧
    MulFits loaded r

theorem tagOf_eq
    (key32 : List.Vector UInt8 32)
    (nonce12 : List.Vector UInt8 12)
    (ad sealedBytes : List UInt8) :
    tagOf key32 nonce12 ad sealedBytes =
      BRPoly1305
        ((block (nonceState key32 nonce12 0)).take 32)
        (macData ad sealedBytes) := by
  rw [tagOf, aeadKey_eq, macState_eq, BRPoly1305]

end Chacha

end PlusWallet
