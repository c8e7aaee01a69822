import Mathlib

/-
  Numbers of a few significant bytes and a size: a mantissa
  that stands for itself when the size is three.

  Main declarations:
    * `CompactNumber.value`
    * `CompactNumber.natCast_le_value_iff`
    * `CompactNumber.value_le_value_iff`
    * `CompactNumber.decode`, `CompactNumber.encode`
    * `CompactNumber.encode_eq`, `CompactNumber.encode_spec`
    * `CompactNumber.encode_div_iff`, `CompactNumber.encode_min`
-/

namespace PlusWallet

namespace CompactNumber

/- The number of a mantissa and a size in bytes. -/
def value (mantissa size : Nat) : ℚ :=
  mantissa * 256 ^ ((size : ℤ) - 3)

theorem value_eq_div (mantissa size : Nat) :
    value mantissa size =
      ((mantissa * 256 ^ size : ℕ) : ℚ) / 256 ^ 3 := by
  rw [value, zpow_sub₀ (by norm_num), zpow_natCast]
  push_cast
  rw [mul_div_assoc]
  rfl

theorem value_pos_iff (mantissa size : Nat) :
    0 < value mantissa size ↔ 0 < mantissa := by
  have hPower : (0 : ℚ) < 256 ^ ((size : ℤ) - 3) :=
    zpow_pos (by norm_num) _
  rw [value, mul_pos_iff_of_pos_right hPower]
  exact Nat.cast_pos

/- What a whole number is compared with. -/
theorem natCast_le_value_iff (number mantissa size : Nat) :
    (number : ℚ) ≤ value mantissa size ↔
      number * 256 ^ 3 ≤ mantissa * 256 ^ size := by
  rw [value_eq_div, le_div_iff₀ (by norm_num)]
  exact_mod_cast Iff.rfl

theorem value_le_value_iff
    (mantissa size otherMantissa otherSize : Nat) :
    value mantissa size ≤ value otherMantissa otherSize ↔
      mantissa * 256 ^ size ≤
        otherMantissa * 256 ^ otherSize := by
  rw [value_eq_div, value_eq_div,
    div_le_div_iff_of_pos_right (by norm_num)]
  exact Nat.cast_le

/-
  The whole part of a number whose size is beyond the bytes of
  its mantissa, or within them.
-/
theorem natCast_le_value_iff_of_lt
    (number mantissa : Nat)
    {size : Nat}
    (hSize : 3 < size) :
    (number : ℚ) ≤ value mantissa size ↔
      number ≤ mantissa * 256 ^ (size - 3) := by
  have hPower : 256 ^ size = 256 ^ (size - 3) * 256 ^ 3 := by
    rw [← pow_add]
    congr 1
    omega
  rw [natCast_le_value_iff, hPower, ← mul_assoc]
  exact Nat.mul_le_mul_right_iff (by decide)

theorem natCast_le_value_iff_of_le
    (number mantissa : Nat)
    {size : Nat}
    (hSize : size ≤ 3) :
    (number : ℚ) ≤ value mantissa size ↔
      number ≤ mantissa / 256 ^ (3 - size) := by
  have hPower : 256 ^ 3 = 256 ^ (3 - size) * 256 ^ size := by
    rw [← pow_add]
    congr 1
    omega
  rw [natCast_le_value_iff, hPower, ← mul_assoc,
    Nat.le_div_iff_mul_le (by positivity)]
  exact Nat.mul_le_mul_right_iff (by positivity)

------------------------------------------------------------
-- Encodings
------------------------------------------------------------

/- The whole number of a mantissa and a size. -/
def decode (mantissa size : Nat) : Nat :=
  256 ^ size * mantissa / 256 ^ 3

/- The number of bytes of a number. -/
def byteCount (number : Nat) : Nat :=
  if number = 0 then 0 else Nat.log 256 number + 1

/-
  The mantissa and the size of a number, with the highest bit
  of the mantissa kept clear.
-/
def encode (number : Nat) : Nat × Nat :=
  let size := byteCount number
  let mantissa := 256 ^ 3 * number / 256 ^ size
  if mantissa < 2 ^ 23 then (mantissa, size)
  else (mantissa / 256, size + 1)

/- The three highest bytes of a number. -/
theorem highBytes_bounds
    {number : Nat}
    (hNumber : 0 < number) :
    2 ^ 16 ≤ 256 ^ 3 * number / 256 ^ byteCount number ∧
      256 ^ 3 * number / 256 ^ byteCount number < 2 ^ 24 := by
  have hLow : 256 ^ Nat.log 256 number ≤ number :=
    Nat.pow_log_le_self 256 hNumber.ne'
  have hHigh : number < 256 ^ (Nat.log 256 number + 1) :=
    Nat.lt_pow_succ_log_self (by decide) number
  rw [byteCount, if_neg hNumber.ne']
  constructor
  · rw [Nat.le_div_iff_mul_le (by positivity), pow_succ]
    omega
  · rw [Nat.div_lt_iff_lt_mul (by positivity)]
    omega

/- One byte more of the size is one byte less behind it. -/
theorem scaled_succ (number size : Nat) :
    256 ^ 3 * number / 256 ^ (size + 1) =
      256 ^ 3 * number / 256 ^ size / 256 := by
  rw [pow_succ 256 size, Nat.div_div_eq_div_mul]

theorem scaled_antitone
    (number : Nat)
    {size other : Nat}
    (hLe : size ≤ other) :
    256 ^ 3 * number / 256 ^ other ≤
      256 ^ 3 * number / 256 ^ size :=
  Nat.div_le_div_left
    (Nat.pow_le_pow_right (by decide) hLe) (by positivity)

/- What is encoded stands for the highest bytes. -/
theorem encode_fst (number : Nat) :
    (encode number).1 =
      256 ^ 3 * number / 256 ^ (encode number).2 := by
  unfold encode
  dsimp only
  by_cases hClear :
      256 ^ 3 * number / 256 ^ byteCount number < 2 ^ 23
  · rw [if_pos hClear]
  · rw [if_neg hClear]
    exact (scaled_succ number _).symm

theorem encode_spec
    {number : Nat}
    (hNumber : 0 < number) :
    2 ^ 15 ≤ (encode number).1 ∧
      (encode number).1 < 2 ^ 23 := by
  rcases highBytes_bounds hNumber with ⟨hLow, hHigh⟩
  unfold encode
  dsimp only
  by_cases hClear :
      256 ^ 3 * number / 256 ^ byteCount number < 2 ^ 23
  · rw [if_pos hClear]
    exact ⟨le_trans (by decide) hLow, hClear⟩
  · rw [if_neg hClear]
    dsimp only
    omega

theorem encode_fst_lt (number : Nat) :
    (encode number).1 < 2 ^ 23 := by
  rcases Nat.eq_zero_or_pos number with rfl | hNumber
  · decide
  · exact (encode_spec hNumber).2

/- A mantissa in its range belongs to one size only. -/
theorem encode_eq
    {number mantissa size : Nat}
    (hLow : 2 ^ 15 ≤ mantissa)
    (hHigh : mantissa < 2 ^ 23)
    (hScaled : 256 ^ 3 * number / 256 ^ size = mantissa) :
    encode number = (mantissa, size) := by
  have hNumber : 0 < number := by
    apply Nat.pos_of_ne_zero
    rintro rfl
    rw [Nat.mul_zero, Nat.zero_div] at hScaled
    omega
  rcases highBytes_bounds hNumber with ⟨hTop, hFits⟩
  have hNext := scaled_succ number (byteCount number)
  have hLast := scaled_succ number (byteCount number + 1)
  unfold encode
  dsimp only
  rcases lt_trichotomy size (byteCount number) with
    hLess | hSame | hMore
  · have hBefore := scaled_antitone number
      (Nat.le_sub_one_of_lt hLess)
    have hStep := scaled_succ number (byteCount number - 1)
    rw [Nat.sub_add_cancel (by omega)] at hStep
    omega
  · rw [hSame] at hScaled ⊢
    rw [hScaled, if_pos hHigh]
  · by_cases hOne : size = byteCount number + 1
    · rw [hOne, hNext] at hScaled
      rw [if_neg (by omega), hScaled, hOne]
    · have hAfter := scaled_antitone number
        (show byteCount number + 1 + 1 ≤ size by omega)
      omega

/- A mantissa and a size that encode what they stand for. -/
theorem scale_of_encode_decode
    {mantissa size : Nat}
    (hEncode :
      encode (decode mantissa size) = (mantissa, size)) :
    256 ^ 3 * decode mantissa size = 256 ^ size * mantissa := by
  rcases le_or_gt 3 size with hSize | hSize
  · have hDivides : 256 ^ 3 ∣ 256 ^ size * mantissa :=
      Dvd.dvd.mul_right (pow_dvd_pow 256 hSize) mantissa
    exact Nat.mul_div_cancel' hDivides
  · have hMantissa := encode_fst (decode mantissa size)
    rw [hEncode] at hMantissa
    have hDivides :
        256 ^ size ∣ 256 ^ 3 * decode mantissa size :=
      Dvd.dvd.mul_right (pow_dvd_pow 256 hSize.le) _
    rw [← Nat.mul_div_cancel' hDivides]
    exact congrArg _ hMantissa.symm

------------------------------------------------------------
-- Quotients
------------------------------------------------------------

/-
  What is left of a quotient of whole numbers at a size that
  has no digits behind the point.
-/
theorem scaled_quotient
    (number divisor : Nat)
    {size : Nat}
    (hSize : 3 ≤ size) :
    256 ^ 3 * (number / divisor) / 256 ^ size =
      256 ^ 3 * number / (divisor * 256 ^ size) := by
  have hPower : 256 ^ size = 256 ^ 3 * 256 ^ (size - 3) := by
    rw [← pow_add]
    congr 1
    omega
  rw [hPower, Nat.mul_div_mul_left _ _ (by positivity),
    Nat.div_div_eq_div_mul, mul_left_comm divisor,
    Nat.mul_div_mul_left _ _ (by positivity)]

/- At a smaller size the digits behind the point must be zero. -/
theorem scaled_quotient_iff
    (number : Nat)
    {divisor size : Nat}
    (hDivisor : 0 < divisor)
    (hSize : size < 3) :
    256 ^ 3 * (number / divisor) / 256 ^ size =
        256 ^ 3 * number / (divisor * 256 ^ size) ↔
      number % divisor * 256 ^ (3 - size) < divisor := by
  have hPower : 256 ^ 3 = 256 ^ size * 256 ^ (3 - size) := by
    rw [← pow_add]
    congr 1
    omega
  have hSplit :
      256 ^ (3 - size) * number =
        number % divisor * 256 ^ (3 - size) +
          divisor * (256 ^ (3 - size) * (number / divisor)) := by
    conv_lhs => rw [← Nat.mod_add_div number divisor]
    ring
  rw [hPower, mul_assoc, mul_assoc, mul_comm divisor,
    Nat.mul_div_cancel_left _ (by positivity),
    Nat.mul_div_mul_left _ _ (by positivity), hSplit,
    Nat.add_mul_div_left _ _ hDivisor, eq_comm,
    Nat.add_eq_right, Nat.div_eq_zero_iff]
  constructor
  · rintro (rfl | hLt)
    · exact absurd hDivisor (lt_irrefl 0)
    · exact hLt
  · exact Or.inr

/-
  The mantissa of a scaled quotient is that of the quotient if
  it has no digits behind the point.
-/
theorem encode_div_iff
    {number divisor mantissa size : Nat}
    (hDivisor : 0 < divisor)
    (hScaled :
      256 ^ 3 * number / (divisor * 256 ^ size) = mantissa)
    (hLow : 2 ^ 15 ≤ mantissa ∨ 0 < mantissa ∧ size ≤ 1)
    (hHigh : mantissa < 2 ^ 23) :
    encode (number / divisor) = (mantissa, size) ↔
      3 ≤ size ∨
        number % divisor * 256 ^ (3 - size) < divisor := by
  have hSame :
      256 ^ 3 * (number / divisor) / 256 ^ size = mantissa ↔
        3 ≤ size ∨
          number % divisor * 256 ^ (3 - size) < divisor := by
    rw [← hScaled]
    rcases le_or_gt 3 size with hSize | hSize
    · exact iff_of_true (scaled_quotient _ _ hSize)
        (Or.inl hSize)
    · rw [scaled_quotient_iff number hDivisor hSize]
      constructor
      · exact Or.inr
      · rintro (hLarge | hDigits)
        · omega
        · exact hDigits
  rw [← hSame]
  constructor
  · intro hEncode
    have hFst := encode_fst (number / divisor)
    rw [hEncode] at hFst
    exact hFst.symm
  · intro hWhole
    refine encode_eq ?_ hHigh hWhole
    rcases hLow with hLow | ⟨hPositive, hSize⟩
    · exact hLow
    · have hPower :
          256 ^ 3 = 256 ^ size * 256 ^ (3 - size) := by
        rw [← pow_add]
        congr 1
        omega
      rw [hPower, mul_assoc,
        Nat.mul_div_cancel_left _ (by positivity)] at hWhole
      have hQuotient : 0 < number / divisor := by
        apply Nat.pos_of_ne_zero
        intro hZero
        rw [hZero] at hWhole
        omega
      have hBytes : 256 ^ 2 ≤ 256 ^ (3 - size) :=
        Nat.pow_le_pow_right (by decide) (by omega)
      calc
        2 ^ 15 ≤ 256 ^ 2 * 1 := by decide
        _ ≤ 256 ^ (3 - size) * (number / divisor) :=
          Nat.mul_le_mul hBytes hQuotient
        _ = mantissa := hWhole

------------------------------------------------------------
-- Limits
------------------------------------------------------------

/- The encoding of a limit of so many digits. -/
theorem encode_decode
    {mantissa size : Nat}
    (hLow : 2 ^ 15 ≤ mantissa)
    (hHigh : mantissa < 2 ^ 23)
    (hSize : 3 ≤ size) :
    encode (decode mantissa size) = (mantissa, size) := by
  apply encode_eq hLow hHigh
  have hDivides : 256 ^ 3 ∣ 256 ^ size * mantissa :=
    Dvd.dvd.mul_right (pow_dvd_pow 256 hSize) mantissa
  unfold decode
  rw [Nat.mul_div_cancel' hDivides,
    Nat.mul_div_cancel_left _ (by positivity)]

/-
  A number is limited by comparing the sizes, and the mantissas
  of the same size.
-/
theorem encode_min
    (number : Nat)
    {limit limitSize : Nat}
    (hLow : 2 ^ 15 ≤ limit)
    (hHigh : limit < 2 ^ 23)
    (hSize : 3 ≤ limitSize) :
    encode (min (decode limit limitSize) number) =
      if limitSize < (encode number).2 ∨
          (encode number).2 = limitSize ∧
            limit < (encode number).1 then
        (limit, limitSize)
      else encode number := by
  have hLimit := encode_decode hLow hHigh hSize
  have hScale := scale_of_encode_decode hLimit
  rcases Nat.eq_zero_or_pos number with rfl | hNumber
  · have hZero : encode 0 = (0, 0) := rfl
    rw [Nat.min_zero, hZero, if_neg]
    dsimp only
    omega
  rcases encode_spec hNumber with ⟨hFrom, hTo⟩
  have hMantissa := encode_fst number
  generalize hEncoded : encode number = encoded at *
  rcases encoded with ⟨mantissa, size⟩
  dsimp only at *
  have hLeast : mantissa * 256 ^ size ≤ 256 ^ 3 * number := by
    rw [hMantissa]
    exact Nat.div_mul_le_self _ _
  have hMost :
      256 ^ 3 * number < (mantissa + 1) * 256 ^ size := by
    rw [← Nat.div_lt_iff_lt_mul (by positivity), ← hMantissa]
    exact Nat.lt_succ_self mantissa
  by_cases hOver :
      limitSize < size ∨ size = limitSize ∧ limit < mantissa
  · rw [if_pos hOver, min_eq_left, hLimit]
    apply Nat.le_of_mul_le_mul_left _
      (show 0 < 256 ^ 3 by positivity)
    rw [hScale]
    apply le_trans _ hLeast
    rcases hOver with hLess | ⟨rfl, hMore⟩
    · have hPower : 256 ^ limitSize * 256 ≤ 256 ^ size := by
        rw [← pow_succ]
        exact Nat.pow_le_pow_right (by decide) hLess
      calc
        256 ^ limitSize * limit ≤
            256 ^ limitSize * (256 * 2 ^ 15) :=
          Nat.mul_le_mul_left _ (by omega)
        _ = 2 ^ 15 * (256 ^ limitSize * 256) := by ring
        _ ≤ mantissa * 256 ^ size :=
          Nat.mul_le_mul hFrom hPower
    · rw [mul_comm]
      exact Nat.mul_le_mul_right _ hMore.le
  · rw [if_neg hOver]
    rcases le_or_gt number (decode limit limitSize) with
      hWithin | hBeyond
    · rw [min_eq_right hWithin]
      exact hEncoded
    · have hMore :
          256 ^ limitSize * limit < 256 ^ 3 * number := by
        rw [← hScale]
        exact Nat.mul_lt_mul_of_pos_left hBeyond
          (by positivity)
      have hSame : size = limitSize := by
        by_contra hOther
        have hPower : 256 ^ size * 256 ≤ 256 ^ limitSize := by
          rw [← pow_succ]
          exact Nat.pow_le_pow_right (by decide) (by omega)
        have hReach :
            (mantissa + 1) * 256 ^ size ≤
              256 ^ limitSize * limit :=
          calc
            (mantissa + 1) * 256 ^ size ≤
                256 * limit * 256 ^ size :=
              Nat.mul_le_mul_right _ (by omega)
            _ = 256 ^ size * 256 * limit := by ring
            _ ≤ 256 ^ limitSize * limit :=
              Nat.mul_le_mul_right _ hPower
        omega
      have hReach : limit < mantissa + 1 := by
        apply Nat.lt_of_mul_lt_mul_right (a := 256 ^ limitSize)
        rw [hSame] at hMost
        rw [mul_comm limit]
        exact hMore.trans hMost
      have hEqual : mantissa = limit := by omega
      rw [min_eq_left hBeyond.le, hLimit, hEqual, hSame]

end CompactNumber

end PlusWallet
