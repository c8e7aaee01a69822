import Mathlib
import PlusWallet.Library.Positional

/-
  Checksums that a polynomial over two elements divides, as
  the error detecting codes of addresses compute them.

  A checksum has `low + width` bits.  A step moves it up by the
  `width` bits of a group, and each bit that leaves it adds a
  mask.

  Main declarations:
    * `Code`, `Code.step`, `Code.feed`
    * `feed_xor`
    * `feed_checkGroups`, `eq_checkGroups`
-/

namespace PlusWallet

namespace LinearChecksum

open Positional

------------------------------------------------------------
-- Masks
------------------------------------------------------------

/- The sum of the masks whose bit is set in a number. -/
def terms : List Nat → Nat → Nat
  | [], _ => 0
  | mask :: masks, number =>
      (if number.testBit 0 then mask else 0) ^^^
        terms masks (number / 2)

theorem terms_xor
    (masks : List Nat)
    (number other : Nat) :
    terms masks (number ^^^ other) =
      terms masks number ^^^ terms masks other := by
  induction masks generalizing number other with
  | nil => simp [terms]
  | cons mask masks ih =>
      have hDiv :
          (number ^^^ other) / 2 = number / 2 ^^^ other / 2 := by
        simpa using @Nat.xor_div_two_pow number other 1
      simp only [terms, Nat.testBit_xor, hDiv, ih]
      rcases number.testBit 0 <;> rcases other.testBit 0
      · simp
      · simp only [Bool.false_xor, if_true, if_false,
          Bool.false_eq_true]
        ac_rfl
      · simp only [Bool.xor_false, if_true, if_false,
          Bool.false_eq_true]
        ac_rfl
      · have hCancel :
            mask ^^^ terms masks (number / 2) ^^^
                (mask ^^^ terms masks (other / 2)) =
              (mask ^^^ mask) ^^^
                (terms masks (number / 2) ^^^
                  terms masks (other / 2)) := by
          ac_rfl
        simp only [Bool.xor_self, if_true, if_false,
          Bool.false_eq_true, hCancel, Nat.xor_self]

@[simp]
theorem terms_zero
    (masks : List Nat) :
    terms masks 0 = 0 := by
  induction masks with
  | nil => rfl
  | cons mask masks ih => simp [terms, ih]

theorem terms_lt
    {masks : List Nat}
    {bits : Nat}
    (hMasks : ∀ mask ∈ masks, mask < 2 ^ bits)
    (number : Nat) :
    terms masks number < 2 ^ bits := by
  induction masks generalizing number with
  | nil => exact Nat.two_pow_pos bits
  | cons mask masks ih =>
      apply Nat.xor_lt_two_pow
      · split_ifs
        · exact hMasks mask List.mem_cons_self
        · exact Nat.two_pow_pos bits
      · apply ih
        intro other hOther
        exact hMasks other (List.mem_cons_of_mem _ hOther)

------------------------------------------------------------
-- Steps
------------------------------------------------------------

structure Code where
  width : Nat
  low : Nat
  masks : List Nat
  masks_lt : ∀ mask ∈ masks, mask < 2 ^ (low + width)

namespace Code

variable (code : Code)

def step (chk : Nat) : Nat :=
  chk % 2 ^ code.low * 2 ^ code.width ^^^
    terms code.masks (chk / 2 ^ code.low)

/- The checksum over some groups. -/
def feed (chk : Nat) (groups : List Nat) : Nat :=
  groups.foldl (fun chk group => code.step chk ^^^ group) chk

/- The checksum over no groups but zeros. -/
def feedZeros (chk count : Nat) : Nat :=
  code.feed chk (List.replicate count 0)

theorem step_xor
    (chk other : Nat) :
    code.step (chk ^^^ other) =
      code.step chk ^^^ code.step other := by
  simp only [step, Nat.xor_mod_two_pow, Nat.xor_div_two_pow,
    terms_xor, ← Nat.shiftLeft_eq, Nat.shiftLeft_xor_distrib]
  ac_rfl

theorem step_of_lt
    {chk : Nat}
    (hSmall : chk < 2 ^ code.low) :
    code.step chk = chk * 2 ^ code.width := by
  rw [step, Nat.mod_eq_of_lt hSmall, Nat.div_eq_of_lt hSmall,
    terms_zero, Nat.xor_zero]

theorem step_lt
    (chk : Nat) :
    code.step chk < 2 ^ (code.low + code.width) := by
  apply Nat.xor_lt_two_pow
  · rw [Nat.pow_add]
    apply Nat.mul_lt_mul_of_pos_right
    · exact Nat.mod_lt _ (Nat.two_pow_pos _)
    · exact Nat.two_pow_pos _
  · exact terms_lt code.masks_lt _

------------------------------------------------------------
-- Linearity
------------------------------------------------------------

@[simp]
theorem feed_nil (chk : Nat) : code.feed chk [] = chk := rfl

theorem feed_cons
    (chk group : Nat)
    (groups : List Nat) :
    code.feed chk (group :: groups) =
      code.feed (code.step chk ^^^ group) groups := rfl

theorem feed_append
    (chk : Nat)
    (groups other : List Nat) :
    code.feed chk (groups ++ other) =
      code.feed (code.feed chk groups) other :=
  List.foldl_append

theorem feedZeros_succ
    (chk count : Nat) :
    code.feedZeros chk (count + 1) =
      code.feedZeros (code.step chk) count := by
  unfold feedZeros
  rw [List.replicate_succ, feed_cons, Nat.xor_zero]

theorem feed_xor
    (chk other : Nat)
    (groups : List Nat) :
    code.feed (chk ^^^ other) groups =
      code.feedZeros chk groups.length ^^^
        code.feed other groups := by
  induction groups generalizing chk other with
  | nil => rfl
  | cons group groups ih =>
      rw [feed_cons, step_xor, Nat.xor_assoc, ih,
        List.length_cons, feedZeros_succ, feed_cons]

/- What groups add does not depend on what was before. -/
theorem feed_eq
    (chk : Nat)
    (groups : List Nat) :
    code.feed chk groups =
      code.feedZeros chk groups.length ^^^
        code.feed 0 groups := by
  have hXor := code.feed_xor chk 0 groups
  rwa [Nat.xor_zero] at hXor

/- Two checksums that zeros keep apart differ over groups. -/
theorem feed_ne_of_feedZeros_ne
    {chk other : Nat}
    {groups : List Nat}
    (hZeros :
      code.feedZeros (chk ^^^ other) groups.length ≠ 0) :
    code.feed chk groups ≠ code.feed other groups := by
  intro hEq
  have hSplit := code.feed_xor (chk ^^^ other) other groups
  rw [Nat.xor_assoc, Nat.xor_self, Nat.xor_zero, hEq] at hSplit
  apply hZeros
  have hCancel := congrArg (· ^^^ code.feed other groups) hSplit
  simp only [Nat.xor_assoc, Nat.xor_self, Nat.xor_zero]
    at hCancel
  exact hCancel.symm

------------------------------------------------------------
-- Few Groups
------------------------------------------------------------

/- A group behind a number of groups is added to it. -/
theorem mul_xor_group
    {width group : Nat}
    (hGroup : group < 2 ^ width)
    (number : Nat) :
    number * 2 ^ width ^^^ group =
      number * 2 ^ width + group := by
  rw [← Nat.shiftLeft_eq,
    Nat.shiftLeft_add_eq_or_of_lt hGroup]
  apply Nat.eq_of_testBit_eq
  intro i
  rw [Nat.testBit_xor, Nat.testBit_or, Nat.testBit_shiftLeft]
  by_cases hLow : width ≤ i
  · have hNone : group.testBit i = false :=
      Nat.testBit_lt_two_pow
        (lt_of_lt_of_le hGroup
          (Nat.pow_le_pow_right (by decide) hLow))
    rw [hNone, Bool.xor_false, Bool.or_false]
  · rw [decide_eq_false hLow, Bool.false_and, Bool.false_xor,
      Bool.false_or]

/- Few groups are the number that they stand for. -/
theorem feed_zero
    {groups : List Nat}
    (hWidth : 0 < code.width)
    (hFew :
      code.width * groups.length ≤ code.low + code.width)
    (hGroups : ∀ group ∈ groups, group < 2 ^ code.width) :
    code.feed 0 groups = value (2 ^ code.width) groups := by
  induction groups using List.reverseRecOn with
  | nil => rfl
  | append_singleton groups group ih =>
      rw [List.length_append, List.length_singleton,
        Nat.mul_add, Nat.mul_one] at hFew
      have hFront : ∀ group ∈ groups, group < 2 ^ code.width :=
        fun other hOther =>
          hGroups other (List.mem_append_left _ hOther)
      have hLast : group < 2 ^ code.width :=
        hGroups group (by simp)
      have hValue := ih (by omega) hFront
      have hSmall : code.feed 0 groups < 2 ^ code.low := by
        rw [hValue]
        refine lt_of_lt_of_le (value_lt ?_ hFront) ?_
        · exact Nat.one_lt_two_pow (by omega)
        · rw [← Nat.pow_mul]
          exact Nat.pow_le_pow_right (by decide) (by omega)
      rw [feed_append, feed_cons, feed_nil,
        code.step_of_lt hSmall, mul_xor_group hLast,
        value_append_singleton, hValue]

------------------------------------------------------------
-- The Groups of the Checksum
------------------------------------------------------------

/-
  The groups that bring a checksum to 1, in the number that
  takes all of its bits.
-/
def checkGroups (count chk : Nat) : List Nat :=
  lastDigits (2 ^ code.width) count
    (code.feedZeros chk count ^^^ 1)

variable {code}
variable {count : Nat}

/- A checksum is a number of groups of one bit or more. -/
structure Fits (code : Code) (count : Nat) : Prop where
  width_pos : 0 < code.width
  count_pos : 0 < count
  bits : code.width * count = code.low + code.width

theorem feedZeros_lt
    (hFits : Fits code count)
    (chk : Nat) :
    code.feedZeros chk count < 2 ^ (code.low + code.width) := by
  rcases count with _ | count
  · exact absurd hFits.count_pos (Nat.lt_irrefl 0)
  · rw [feedZeros, List.replicate_succ', feed_append,
      feed_cons, feed_nil, Nat.xor_zero]
    exact code.step_lt _

theorem feed_checkGroups
    (hFits : Fits code count)
    (chk : Nat) :
    code.feed chk (code.checkGroups count chk) = 1 := by
  have hBits := hFits.bits
  have hLt :
      code.feedZeros chk count ^^^ 1 <
        (2 ^ code.width) ^ count := by
    rw [← Nat.pow_mul, hBits]
    apply Nat.xor_lt_two_pow (feedZeros_lt hFits chk)
    have hWidth := hFits.width_pos
    exact Nat.one_lt_two_pow (by omega)
  have hNumber :
      code.feed 0 (code.checkGroups count chk) =
        code.feedZeros chk count ^^^ 1 := by
    rw [code.feed_zero hFits.width_pos]
    · exact value_lastDigits hLt
    · rw [checkGroups, length_lastDigits]
      omega
    · exact lt_of_mem_lastDigits (Nat.two_pow_pos _)
  rw [feed_eq, hNumber, checkGroups, length_lastDigits,
    ← Nat.xor_assoc, Nat.xor_self, Nat.zero_xor]

/- No other groups do. -/
theorem eq_checkGroups
    {chk : Nat}
    {groups : List Nat}
    (hFits : Fits code count)
    (hLength : groups.length = count)
    (hGroups : ∀ group ∈ groups, group < 2 ^ code.width)
    (hFeed : code.feed chk groups = 1) :
    groups = code.checkGroups count chk := by
  have hBits := hFits.bits
  have hNumber :
      value (2 ^ code.width) groups =
        code.feedZeros chk count ^^^ 1 := by
    rw [feed_eq, hLength] at hFeed
    rw [← code.feed_zero hFits.width_pos (by rw [hLength]; omega)
      hGroups, ← hFeed, ← Nat.xor_assoc, Nat.xor_self,
      Nat.zero_xor]
  have hBase : 1 < 2 ^ code.width :=
    Nat.one_lt_two_pow (Nat.pos_iff_ne_zero.mp hFits.width_pos)
  apply eq_of_value_eq hBase
  · rw [hLength, checkGroups, length_lastDigits]
  · exact hGroups
  · exact lt_of_mem_lastDigits (Nat.two_pow_pos _)
  · have hLt := value_lt hBase hGroups
    rw [hNumber, hLength] at hLt
    rw [hNumber, checkGroups, value_lastDigits hLt]

end Code

end LinearChecksum

end PlusWallet
