import Mathlib.Data.Nat.Bitwise

/-
  Lists of words of a width as strings of bits, the highest
  bit of a word first.

  Main declarations:
    * `bit`
    * `bit_append`
    * `eq_of_bits`
-/

namespace PlusWallet

namespace Bits

/-
  The bit at a position of a list of words, 0 behind the end.
-/
def bit (width : Nat) (words : List UInt8) (k : Nat) : Bool :=
  (words.getD (k / width) 0).toNat.testBit
    (width - 1 - k % width)

@[simp]
theorem bit_nil (width k : Nat) : bit width [] k = false := by
  simp [bit]

theorem bit_of_length_le
    {width k : Nat}
    (hWidth : 0 < width)
    {words : List UInt8}
    (hEnd : width * words.length ≤ k) :
    bit width words k = false := by
  have hDiv : words.length ≤ k / width :=
    (Nat.le_div_iff_mul_le hWidth).mpr (by
      rwa [Nat.mul_comm])
  rw [bit, List.getD_eq_default _ _ hDiv]
  simp

theorem bit_append
    {width : Nat}
    (hWidth : 0 < width)
    (words other : List UInt8)
    (k : Nat) :
    bit width (words ++ other) k =
      if k < width * words.length then bit width words k
      else bit width other (k - width * words.length) := by
  split_ifs with hLt
  · have hDiv : k / width < words.length :=
      (Nat.div_lt_iff_lt_mul hWidth).mpr (by
        rwa [Nat.mul_comm])
    rw [bit, List.getD_append _ _ _ _ hDiv, bit]
  · have hSplit : k = width * words.length +
        (k - width * words.length) := by
      omega
    have hDiv :
        k / width =
          words.length +
            (k - width * words.length) / width := by
      conv_lhs => rw [hSplit]
      exact Nat.mul_add_div hWidth _ _
    have hMod :
        k % width = (k - width * words.length) % width := by
      conv_lhs => rw [hSplit]
      exact Nat.mul_add_mod _ _ _
    rw [bit, hDiv, hMod,
      List.getD_append_right _ _ _ _ (Nat.le_add_right _ _),
      Nat.add_sub_cancel_left, bit]

theorem bit_cons
    {width : Nat}
    (hWidth : 0 < width)
    (word : UInt8)
    (words : List UInt8)
    (k : Nat) :
    bit width (word :: words) k =
      if k < width then word.toNat.testBit (width - 1 - k)
      else bit width words (k - width) := by
  have hAppend := bit_append hWidth [word] words k
  rw [List.singleton_append, List.length_singleton,
    Nat.mul_one] at hAppend
  rw [hAppend]
  split_ifs with hLt
  · rw [bit, Nat.div_eq_of_lt hLt, Nat.mod_eq_of_lt hLt]
    rfl
  · rfl

theorem bit_take
    {width : Nat}
    (hWidth : 0 < width)
    (words : List UInt8)
    (count k : Nat) :
    bit width (words.take count) k =
      (decide (k < width * count) && bit width words k) := by
  by_cases hLt : k < width * count
  · have hDiv : k / width < count :=
      (Nat.div_lt_iff_lt_mul hWidth).mpr (by
        rwa [Nat.mul_comm])
    simp [bit, hLt, hDiv, List.getD]
  · rw [decide_eq_false hLt, Bool.false_and]
    apply bit_of_length_le hWidth
    have hLength : (words.take count).length ≤ count :=
      List.length_take_le _ _
    have hMul := Nat.mul_le_mul_left width hLength
    omega

@[simp]
theorem bit_replicate_zero
    (width count k : Nat) :
    bit width (List.replicate count 0) k = false := by
  have hZero :
      (List.replicate count (0 : UInt8)).getD (k / width) 0 =
        0 := by
    rw [List.getD, List.getElem?_replicate]
    split_ifs <;> rfl
  rw [bit, hZero]
  simp

/- Words are determined by their number and their bits. -/
theorem eq_of_bits
    {width : Nat}
    {words other : List UInt8}
    (hLength : words.length = other.length)
    (hWords : ∀ word ∈ words, word.toNat < 2 ^ width)
    (hOther : ∀ word ∈ other, word.toNat < 2 ^ width)
    (hBits : ∀ k, bit width words k = bit width other k) :
    words = other := by
  apply List.ext_getElem hLength
  intro i hI hI'
  apply UInt8.toNat_inj.mp
  apply Nat.eq_of_testBit_eq
  intro b
  by_cases hLt : b < width
  · have hBit := hBits (width * i + (width - 1 - b))
    have hRest : width - 1 - b < width := by omega
    have hIndex : width - 1 - (width - 1 - b) = b := by omega
    rw [bit, bit, Nat.mul_add_div (by omega),
      Nat.div_eq_of_lt hRest, Nat.add_zero,
      Nat.mul_add_mod, Nat.mod_eq_of_lt hRest, hIndex,
      List.getD_eq_getElem _ _ hI,
      List.getD_eq_getElem _ _ hI'] at hBit
    exact hBit
  · have hHigh :
        ∀ word : UInt8, word.toNat < 2 ^ width →
          word.toNat.testBit b = false := by
      intro word hWord
      apply Nat.testBit_lt_two_pow
      exact lt_of_lt_of_le hWord
        (Nat.pow_le_pow_right (by decide) (by omega))
    rw [hHigh _ (hWords _ (List.getElem_mem hI)),
      hHigh _ (hOther _ (List.getElem_mem hI'))]

------------------------------------------------------------
-- Numbers of a Width
------------------------------------------------------------

/- The same for numbers, which may be wider than a byte. -/
def digitBit
    (width : Nat)
    (digits : List Nat)
    (k : Nat) : Bool :=
  (digits.getD (k / width) 0).testBit (width - 1 - k % width)

theorem digitBit_mul_add
    {width r : Nat}
    (hRest : r < width)
    (digits : List Nat)
    (i : Nat) :
    digitBit width digits (width * i + r) =
      (digits.getD i 0).testBit (width - 1 - r) := by
  unfold digitBit
  rw [Nat.mul_add_div (by omega), Nat.div_eq_of_lt hRest,
    Nat.add_zero, Nat.mul_add_mod, Nat.mod_eq_of_lt hRest]

theorem bit_mul_add
    {width r : Nat}
    (hRest : r < width)
    (words : List UInt8)
    (i : Nat) :
    bit width words (width * i + r) =
      (words.getD i 0).toNat.testBit (width - 1 - r) := by
  unfold bit
  rw [Nat.mul_add_div (by omega), Nat.div_eq_of_lt hRest,
    Nat.add_zero, Nat.mul_add_mod, Nat.mod_eq_of_lt hRest]

/- A number below a power of two has no bits beyond it. -/
theorem eq_of_testBits
    {width number other : Nat}
    (hNumber : number < 2 ^ width)
    (hOther : other < 2 ^ width)
    (hBits :
      ∀ r < width,
        number.testBit (width - 1 - r) =
          other.testBit (width - 1 - r)) :
    number = other := by
  apply Nat.eq_of_testBit_eq
  intro b
  by_cases hLt : b < width
  · have hBit := hBits (width - 1 - b) (by omega)
    have hIndex : width - 1 - (width - 1 - b) = b := by omega
    rwa [hIndex] at hBit
  · have hPow : 2 ^ width ≤ 2 ^ b :=
      Nat.pow_le_pow_right (by decide) (not_lt.mp hLt)
    rw [Nat.testBit_lt_two_pow (hNumber.trans_le hPow),
      Nat.testBit_lt_two_pow (hOther.trans_le hPow)]

end Bits

end PlusWallet
