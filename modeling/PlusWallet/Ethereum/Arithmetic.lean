import PlusWallet.Library.ByteOrder
import PlusWallet.Library.LimbSteps
import PlusWallet.Ethereum.BRUtilMath

/-
  The arithmetic of `BRUtilMath.c` as a whole: sums, products,
  differences, comparisons and quotients are those of natural
  numbers, and no value on the way needs more than 64 bits.

  Main declarations:
    * `BRUtilMath.addUInt256`
    * `BRUtilMath.subUInt256_Negative`
    * `BRUtilMath.compareUInt256`
    * `BRUtilMath.divUInt256_Small`
    * `BRUtilMath.exactArithmetic`
-/

namespace PlusWallet

namespace BRUtilMath

open Bytes

------------------------------------------------------------
-- Operations
------------------------------------------------------------

/- `addUInt256`: the `u32` of a number of 512 bits -/
def addUInt256 (x y : UInt256) : List Nat :=
  let (z, carry) :=
    Limbs.add (2 ^ 32) 0 (u32 8 x.toList) (u32 8 y.toList)
  z ++ (carry % 2 ^ 32) :: List.replicate 7 0

/- `u64` of a number -/
def u64 (x : UInt256) (i : Nat) : Nat :=
  ofLittleEndian ((x.toList.drop (8 * i)).take 8)

/- `eqUInt256` -/
def eqUInt256 (x y : UInt256) : Bool :=
  u64 x 0 = u64 y 0 ∧ u64 x 1 = u64 y 1 ∧
    u64 x 2 = u64 y 2 ∧ u64 x 3 = u64 y 3

/- `gtUInt256` -/
def gtUInt256 (x y : UInt256) : Bool :=
  u64 x 3 > u64 y 3 ∨
    (u64 x 3 = u64 y 3 ∧
      (u64 x 2 > u64 y 2 ∨
        (u64 x 2 = u64 y 2 ∧
          (u64 x 1 > u64 y 1 ∨
            (u64 x 1 = u64 y 1 ∧ u64 x 0 > u64 y 0)))))

/- `subUInt256_x_gt_y` -/
def subUInt256_x_gt_y (x y : UInt256) : UInt256 :=
  ofU32
    (Limbs.sub (2 ^ 32) 0 (u32 8 x.toList) (u32 8 y.toList)).1

/- `subUInt256_Negative` -/
def subUInt256_Negative (x y : UInt256) : UInt256 × Bool :=
  if eqUInt256 x y then (0, false)
  else if gtUInt256 x y then (subUInt256_x_gt_y x y, false)
  else (subUInt256_x_gt_y y x, true)

/- `compareUInt256` -/
def compareUInt256 (x y : UInt256) : Int :=
  if eqUInt256 x y then 0
  else if gtUInt256 x y then 1
  else -1

/- `divUInt256_Small` -/
def divUInt256_Small (x : UInt256) (y : Nat) : UInt256 × Nat :=
  let (z, remainder) :=
    Limbs.divSmall (2 ^ 32) y (u32 8 x.toList)
  (ofU32 z, remainder % 2 ^ 32)

------------------------------------------------------------
-- Words of 64 Bits
------------------------------------------------------------

theorem u64_lt (x : UInt256) (i : Nat) : u64 x i < 2 ^ 64 := by
  have hLt :=
    ofLittleEndian_lt ((x.toList.drop (8 * i)).take 8)
  have hPow :
      256 ^ ((x.toList.drop (8 * i)).take 8).length ≤ 256 ^ 8 :=
    Nat.pow_le_pow_right (by decide) (List.length_take_le 8 _)
  exact hLt.trans_le hPow

theorem ofLittleEndian_take_drop
    {count : Nat}
    {bytes : List UInt8}
    (hCount : count ≤ bytes.length) :
    ofLittleEndian bytes =
      ofLittleEndian (bytes.take count) +
        256 ^ count * ofLittleEndian (bytes.drop count) := by
  conv_lhs => rw [← List.take_append_drop count bytes]
  rw [ofLittleEndian_append, List.length_take,
    Nat.min_eq_left hCount]

/- A number by its four words. -/
theorem valueOf_eq_u64 (x : UInt256) :
    valueOf x =
      u64 x 0 + 2 ^ 64 * (u64 x 1 + 2 ^ 64 *
        (u64 x 2 + 2 ^ 64 * u64 x 3)) := by
  have hLength : x.toList.length = 32 := x.toList_length
  have hLast :
      (x.toList.drop 24).take 8 = x.toList.drop 24 := by
    apply List.take_of_length_le
    rw [List.length_drop, hLength]
  rw [valueOf,
    ofLittleEndian_take_drop
      (show 8 ≤ x.toList.length by omega),
    ofLittleEndian_take_drop
      (show 8 ≤ (x.toList.drop 8).length by
        rw [List.length_drop]
        omega),
    List.drop_drop,
    ofLittleEndian_take_drop
      (show 8 ≤ (x.toList.drop 16).length by
        rw [List.length_drop]
        omega),
    List.drop_drop]
  unfold u64
  rw [hLast]
  rfl

theorem eqUInt256_iff (x y : UInt256) :
    eqUInt256 x y = true ↔ valueOf x = valueOf y := by
  have hX := u64_lt x
  have hY := u64_lt y
  rw [eqUInt256, decide_eq_true_iff, valueOf_eq_u64,
    valueOf_eq_u64]
  have hX0 := hX 0
  have hX1 := hX 1
  have hX2 := hX 2
  have hY0 := hY 0
  have hY1 := hY 1
  have hY2 := hY 2
  omega

theorem gtUInt256_iff (x y : UInt256) :
    gtUInt256 x y = true ↔ valueOf y < valueOf x := by
  have hX := u64_lt x
  have hY := u64_lt y
  rw [gtUInt256, decide_eq_true_iff, valueOf_eq_u64,
    valueOf_eq_u64]
  have hX0 := hX 0
  have hX1 := hX 1
  have hX2 := hX 2
  have hY0 := hY 0
  have hY1 := hY 1
  have hY2 := hY 2
  omega

theorem valueOf_lt (x : UInt256) : valueOf x < 2 ^ 256 := by
  have hLt := ofLittleEndian_lt x.toList
  rw [x.toList_length] at hLt
  exact hLt

------------------------------------------------------------
-- Sums, Differences and Quotients
------------------------------------------------------------

theorem length_u32_eq (x y : UInt256) :
    (u32 8 x.toList).length = (u32 8 y.toList).length := by
  rw [length_u32, length_u32]

/- The limbs of a sum. -/
theorem addUInt256_spec (x y : UInt256) :
    Limbs.value (2 ^ 32) (addUInt256 x y) =
        valueOf x + valueOf y ∧
      Limbs.Within (2 ^ 32) (addUInt256 x y) ∧
      (addUInt256 x y).length = 16 := by
  have hBase : 0 < 2 ^ 32 := by decide
  have hLength := length_u32_eq x y
  have hValue := Limbs.value_add (2 ^ 32) 0 hLength
  have hWithin :=
    Limbs.within_add hBase 0 (u32 8 x.toList) (u32 8 y.toList)
  have hCount := Limbs.length_add (2 ^ 32) 0 hLength
  have hX := valueOf_lt x
  have hY := valueOf_lt y
  rw [value_limbs, value_limbs, length_u32] at hValue
  rw [length_u32] at hCount
  unfold addUInt256
  generalize
    Limbs.add (2 ^ 32) 0 (u32 8 x.toList) (u32 8 y.toList) =
      sum at *
  have hCarry : sum.2 < 2 ^ 32 := by
    by_contra hLarge
    have hMul :
        (2 ^ 32) ^ 8 * 2 ^ 32 ≤ (2 ^ 32) ^ 8 * sum.2 :=
      Nat.mul_le_mul_left _ (Nat.le_of_not_lt hLarge)
    omega
  dsimp only
  rw [Nat.mod_eq_of_lt hCarry]
  refine ⟨?_, ?_, ?_⟩
  · rw [Limbs.value, Nat.ofDigits_append, hCount]
    rw [Nat.ofDigits_cons]
    have hZeros := Limbs.value_zeros (2 ^ 32) 7
    rw [Limbs.value] at hZeros
    rw [hZeros, Nat.mul_zero, Nat.add_zero]
    exact hValue
  · intro limb hLimb
    rcases List.mem_append.mp hLimb with hLow | hHigh
    · exact hWithin limb hLow
    · rcases List.mem_cons.mp hHigh with rfl | hZero
      · exact hCarry
      · rw [List.eq_of_mem_replicate hZero]
        exact hBase
  · rw [List.length_append, hCount, List.length_cons,
      List.length_replicate]

/- A sum that needs more than 256 bits is reported. -/
theorem addUInt256_Overflow_of_le
    {x y : UInt256}
    (hLarge : 2 ^ 256 ≤ valueOf y + valueOf x) :
    addUInt256_Overflow y x = (0, true) := by
  have hCarry :=
    Limbs.add_carry_eq_zero_iff
      (show 0 < 2 ^ 32 by decide) 0 (length_u32_eq x y)
  rw [value_limbs, value_limbs, length_u32] at hCarry
  have hSome :
      (Limbs.add (2 ^ 32) 0 (u32 8 x.toList)
        (u32 8 y.toList)).2 ≠ 0 := by
    intro hNone
    have hSmall := hCarry.mp hNone
    omega
  exact if_pos hSome

/- The smaller number is taken from the greater. -/
theorem valueOf_subUInt256_x_gt_y
    {x y : UInt256}
    (hLe : valueOf y ≤ valueOf x) :
    valueOf (subUInt256_x_gt_y x y) = valueOf x - valueOf y := by
  have hBase : 0 < 2 ^ 32 := by decide
  have hLength := length_u32_eq x y
  rw [← value_limbs x, ← value_limbs y] at hLe ⊢
  rw [subUInt256_x_gt_y, value_ofU32]
  · exact
      Limbs.value_sub_of_le hBase hLength (within_u32 8 _)
        (within_u32 8 _) hLe
  · rw [Limbs.length_sub (2 ^ 32) 0 hLength, length_u32]
  · exact Limbs.within_sub hBase 0 _ _

theorem subUInt256_Negative_spec (x y : UInt256) :
    valueOf (subUInt256_Negative x y).1 =
        ((valueOf x : Int) - valueOf y).natAbs ∧
      ((subUInt256_Negative x y).2 = true ↔
        valueOf x < valueOf y) := by
  unfold subUInt256_Negative
  split_ifs with hEq hGt
  · rw [eqUInt256_iff] at hEq
    rw [valueOf_zero]
    exact ⟨by omega, by simp [hEq]⟩
  · rw [gtUInt256_iff] at hGt
    rw [valueOf_subUInt256_x_gt_y hGt.le]
    refine ⟨by omega, iff_of_false id ?_⟩
    omega
  · rw [eqUInt256_iff] at hEq
    rw [gtUInt256_iff] at hGt
    have hLt : valueOf x < valueOf y := by
      omega
    rw [valueOf_subUInt256_x_gt_y hLt.le]
    exact ⟨by omega, iff_of_true rfl hLt⟩

theorem compareUInt256_spec (x y : UInt256) :
    compareUInt256 x y =
      ((valueOf x : Int) - valueOf y).sign := by
  unfold compareUInt256
  split_ifs with hEq hGt
  · rw [eqUInt256_iff] at hEq
    rw [hEq, sub_self, Int.sign_zero]
  · rw [gtUInt256_iff] at hGt
    exact (Int.sign_eq_one_of_pos (by omega)).symm
  · rw [eqUInt256_iff] at hEq
    rw [gtUInt256_iff] at hGt
    exact (Int.sign_eq_neg_one_of_neg (by omega)).symm

theorem divUInt256_Small_spec
    (x : UInt256)
    {y : Nat}
    (hY : 0 < y)
    (hSmall : y < 2 ^ 32) :
    valueOf (divUInt256_Small x y).1 = valueOf x / y ∧
      (divUInt256_Small x y).2 = valueOf x % y := by
  have hDiv := Limbs.divSmall_spec hY (within_u32 8 x.toList)
  have hRemainder :=
    Limbs.divSmall_remainder_lt (2 ^ 32) hY (u32 8 x.toList)
  have hWithin :=
    Limbs.within_divSmall (show 0 < 2 ^ 32 by decide) y
      (u32 8 x.toList)
  have hLength :=
    Limbs.length_divSmall (2 ^ 32) y (u32 8 x.toList)
  rw [length_u32] at hLength
  rw [value_limbs] at hDiv
  unfold divUInt256_Small
  dsimp only
  rw [value_ofU32 hLength hWithin,
    Nat.mod_eq_of_lt (by omega)]
  exact hDiv

------------------------------------------------------------
-- Exactness
------------------------------------------------------------

/-
  The values of 64 bits that the loops of the operations
  compute, exactly.
-/
structure NoWrap (x y : UInt256) : Prop where
  add :
    ∀ result ∈
        Limbs.addResults (2 ^ 32) 0 (u32 8 x.toList)
          (u32 8 y.toList),
      result < 2 ^ 64
  mul :
    ∀ result ∈
        Limbs.rowsResults (2 ^ 32) (u32 8 y.toList)
          (u32 8 x.toList) (List.replicate 16 0),
      result < 2 ^ 64
  sub :
    ∀ result ∈
        Limbs.subResults (2 ^ 32) 0 (u32 8 x.toList)
          (u32 8 y.toList),
      0 ≤ result ∧ result < 2 ^ 64
  div :
    ∀ small, 0 < small → small < 2 ^ 32 →
      ∀ result ∈
          Limbs.divResults (2 ^ 32) small (u32 8 x.toList),
        result < 2 ^ 64

theorem noWrap (x y : UInt256) : NoWrap x y where
  add :=
    Limbs.addResults_lt (by decide) (Nat.zero_le 1)
      (within_u32 8 _) (within_u32 8 _)
  mul := by
    have hAll :=
      Limbs.rowsResults_lt (show 2 ≤ 2 ^ 32 by decide)
        (within_u32 8 y.toList) (within_u32 8 x.toList)
        (show (List.replicate 8 0).length =
            (u32 8 y.toList).length by
          rw [length_u32, List.length_replicate])
        (show Limbs.Within (2 ^ 32) (List.replicate 8 0) by
          intro limb hLimb
          rw [List.eq_of_mem_replicate hLimb]
          decide)
    rw [length_u32] at hAll
    exact hAll
  sub :=
    Limbs.subResults_lt (by decide) (Nat.zero_le 1)
      (within_u32 8 _) (within_u32 8 _)
  div := fun _ hSmall hLt =>
    Limbs.divResults_lt hSmall hLt.le (within_u32 8 _)

/- What every operation is, in natural numbers. -/
structure ExactArithmetic (x y : UInt256) : Prop where
  add :
    Limbs.value (2 ^ 32) (addUInt256 x y) =
      valueOf x + valueOf y
  mul :
    Limbs.value (2 ^ 32) (mulUInt256 x y) =
      valueOf x * valueOf y
  limbs :
    (addUInt256 x y).length = 16 ∧
      Limbs.Within (2 ^ 32) (addUInt256 x y) ∧
      (mulUInt256 x y).length = 16 ∧
      Limbs.Within (2 ^ 32) (mulUInt256 x y)
  addOverflow :
    if valueOf x + valueOf y < 2 ^ 256 then
      (addUInt256_Overflow x y).2 = false ∧
        valueOf (addUInt256_Overflow x y).1 =
          valueOf x + valueOf y
    else (addUInt256_Overflow x y).2 = true
  mulOverflow :
    if valueOf x * valueOf y < 2 ^ 256 then
      (mulUInt256_Overflow x y).2 = false ∧
        valueOf (mulUInt256_Overflow x y).1 =
          valueOf x * valueOf y
    else (mulUInt256_Overflow x y).2 = true
  sub :
    valueOf (subUInt256_Negative x y).1 =
        ((valueOf x : Int) - valueOf y).natAbs ∧
      ((subUInt256_Negative x y).2 = true ↔
        valueOf x < valueOf y)
  compare :
    compareUInt256 x y = ((valueOf x : Int) - valueOf y).sign
  div :
    ∀ small, 0 < small → small < 2 ^ 32 →
      valueOf (divUInt256_Small x small).1 =
          valueOf x / small ∧
        (divUInt256_Small x small).2 = valueOf x % small
  wraps : NoWrap x y ∧ NoWrap y x

/- Whatever the numbers, the arithmetic is exact. -/
theorem exactArithmetic (x y : UInt256) :
    ExactArithmetic x y where
  add := (addUInt256_spec x y).1
  mul := (mulUInt256_spec x y).1
  limbs :=
    ⟨(addUInt256_spec x y).2.2, (addUInt256_spec x y).2.1,
      (mulUInt256_spec x y).2.2, (mulUInt256_spec x y).2.1⟩
  addOverflow := by
    split_ifs with hFits
    · rcases add_spec hFits with ⟨z, hAdd, hValue⟩
      rw [hAdd]
      exact ⟨rfl, hValue⟩
    · rw [addUInt256_Overflow_of_le (Nat.le_of_not_lt hFits)]
  mulOverflow := by
    split_ifs with hFits
    · rcases mul_spec hFits with ⟨z, hMul, hValue⟩
      rw [hMul]
      exact ⟨rfl, hValue⟩
    · rcases mulUInt256_spec x y with
        ⟨hValue, hWithin, hLength⟩
      rw [← hValue] at hFits
      rw [mulUInt256_Overflow,
        coerceUInt256_of_le hLength hWithin
          (Nat.le_of_not_lt hFits)]
  sub := subUInt256_Negative_spec x y
  compare := compareUInt256_spec x y
  div := fun _ hSmall hLt =>
    divUInt256_Small_spec x hSmall hLt
  wraps := ⟨noWrap x y, noWrap y x⟩

end BRUtilMath

end PlusWallet
