import PlusWallet.Library.Bytes

/-
  Numbers of bytes that stand behind each other, and how they
  compare.

  Main declarations:
    * `Bytes.ofLittleEndian_append`
    * `Bytes.ofLittleEndian_zeros`
    * `Bytes.ofBigEndian_cons`
    * `Bytes.ofBigEndian_lt_cons_iff`
    * `Bytes.littleEndian_ofLittleEndian`
    * `Bytes.slice_append`
-/

namespace PlusWallet

namespace Bytes

theorem ofLittleEndian_append
    (low high : List UInt8) :
    ofLittleEndian (low ++ high) =
      ofLittleEndian low +
        256 ^ low.length * ofLittleEndian high := by
  induction low with
  | nil => simp [ofLittleEndian]
  | cons byte low ih =>
      rw [List.cons_append, ofLittleEndian, ofLittleEndian, ih,
        List.length_cons, pow_succ]
      ring

@[simp]
theorem ofLittleEndian_zeros (count : Nat) :
    ofLittleEndian (List.replicate count 0) = 0 := by
  induction count with
  | zero => rfl
  | succ count ih =>
      rw [List.replicate_succ, ofLittleEndian, ih]
      rfl

theorem ofBigEndian_cons
    (byte : UInt8)
    (bytes : List UInt8) :
    ofBigEndian (byte :: bytes) =
      byte.toNat * 256 ^ bytes.length +
        ofBigEndian bytes := by
  rw [ofBigEndian, List.reverse_cons, ofLittleEndian_append,
    ofBigEndian, List.length_reverse]
  simp only [ofLittleEndian]
  ring

theorem ofBigEndian_lt (bytes : List UInt8) :
    ofBigEndian bytes < 256 ^ bytes.length := by
  have hLt := ofLittleEndian_lt bytes.reverse
  rwa [List.length_reverse] at hLt

/- The first byte decides, unless it is the same. -/
theorem ofBigEndian_lt_cons_iff
    {byte other : UInt8}
    {bytes others : List UInt8}
    (hLength : bytes.length = others.length) :
    ofBigEndian (other :: others) <
        ofBigEndian (byte :: bytes) ↔
      other < byte ∨
        (other = byte ∧
          ofBigEndian others < ofBigEndian bytes) := by
  have hBytes := ofBigEndian_lt bytes
  have hOthers := ofBigEndian_lt others
  rw [ofBigEndian_cons, ofBigEndian_cons,
    UInt8.lt_iff_toNat_lt, ← UInt8.toNat_inj]
  rw [hLength] at hBytes ⊢
  rcases lt_trichotomy other.toNat byte.toNat with
    hLess | hSame | hMore
  · have hStep :=
      Nat.mul_le_mul_right (256 ^ others.length)
        (Nat.succ_le_of_lt hLess)
    rw [Nat.succ_mul] at hStep
    simp only [hLess, true_or, iff_true]
    omega
  · rw [hSame]
    simp
  · have hStep :=
      Nat.mul_le_mul_right (256 ^ others.length)
        (Nat.succ_le_of_lt hMore)
    rw [Nat.succ_mul] at hStep
    simp only [hMore.not_gt, hMore.ne', false_or, false_and,
      iff_false]
    omega

------------------------------------------------------------
-- Bytes That Were Read
------------------------------------------------------------

/- The bytes of the number that some bytes stand for. -/
theorem littleEndian_ofLittleEndian (bytes : List UInt8) :
    littleEndian bytes.length (ofLittleEndian bytes) =
      bytes := by
  induction bytes with
  | nil => rfl
  | cons byte bytes ih =>
      have hByte := byte.toNat_lt
      have hLow :
          (byte.toNat + 256 * ofLittleEndian bytes) % 256 =
            byte.toNat := by
        omega
      have hHigh :
          (byte.toNat + 256 * ofLittleEndian bytes) / 256 =
            ofLittleEndian bytes := by
        omega
      rw [List.length_cons, ofLittleEndian, littleEndian, hLow,
        hHigh, ih, UInt8.ofNat_toNat]

theorem length_of_slice
    {buf bytes : List UInt8}
    {off size : Nat}
    (hSlice : slice buf off size = some bytes) :
    bytes.length = size ∧ off + size ≤ buf.length := by
  unfold slice at hSlice
  split_ifs at hSlice with hInside
  cases hSlice
  rw [List.length_take, List.length_drop]
  omega

/- A slice and the one behind it. -/
theorem slice_append
    {buf bytes rest : List UInt8}
    {off size more : Nat}
    (hSlice : slice buf off size = some bytes)
    (hRest : slice buf (off + size) more = some rest) :
    slice buf off (size + more) = some (bytes ++ rest) := by
  unfold slice at hSlice hRest ⊢
  split_ifs at hSlice hRest with hInside hMore
  cases hSlice
  cases hRest
  rw [if_pos (by omega), List.take_add, List.drop_drop]

theorem infix_of_slice
    {buf bytes : List UInt8}
    {off size : Nat}
    (hSlice : slice buf off size = some bytes) :
    bytes <:+: buf := by
  unfold slice at hSlice
  split_ifs at hSlice
  cases hSlice
  exact
    (List.take_prefix _ _).isInfix.trans
      (List.drop_suffix _ _).isInfix

/- The low bytes of a number, and the bytes above them. -/
theorem littleEndian_add (low high number : Nat) :
    littleEndian (low + high) number =
      littleEndian low number ++
        littleEndian high (number / 256 ^ low) := by
  induction low generalizing number with
  | zero =>
      rw [Nat.zero_add, pow_zero, Nat.div_one]
      rfl
  | succ low hLow =>
      rw [Nat.succ_add, littleEndian, hLow, littleEndian,
        List.cons_append, Nat.div_div_eq_div_mul, pow_succ']

theorem littleEndian_mod (width number : Nat) :
    littleEndian width (number % 256 ^ width) =
      littleEndian width number := by
  induction width generalizing number with
  | zero => rfl
  | succ width hWidth =>
      have hLow :
          number % 256 ^ (width + 1) % 256 = number % 256 :=
        Nat.mod_mod_of_dvd _ (Dvd.intro_left _ rfl)
      have hHigh :
          number % 256 ^ (width + 1) / 256 =
            number / 256 % 256 ^ width := by
        rw [pow_succ', Nat.mod_mul_right_div_self]
      rw [littleEndian, littleEndian, hLow, hHigh, hWidth]

end Bytes

end PlusWallet
