import PlusWallet.Library.CompactNumber
import PlusWallet.MerkleBlock.Parse

/-
  `BRMerkleBlockVerifyDifficulty`, and the rule of a retarget.

  The mantissa of a target is scaled in 64 bits and put into
  the compact format by hand.  The rule scales the number that
  the target stands for; both agree unless the number is so
  small that the mantissa keeps digits behind the point.

  Main declarations:
    * `BRMerkleBlock.normalizeTarget`
    * `BRMerkleBlock.verifyDifficulty`
    * `BRMerkleBlock.expandTarget`
    * `BRMerkleBlock.compactTargetOf`
    * `BRMerkleBlock.RetargetsRight`
    * `BRMerkleBlock.retargetsRight_iff`
-/

namespace PlusWallet

/- number of blocks between difficulty target adjustments -/
def BLOCK_DIFFICULTY_INTERVAL : Nat := 2016

/- the targeted timespan between difficulty target
   adjustments -/
def TARGET_TIMESPAN : Nat := 14 * 24 * 60 * 60

namespace BRMerkleBlock

------------------------------------------------------------
-- The Check
------------------------------------------------------------

theorem toNat_shiftRight_eight (target : UInt64) :
    (target >>> 8).toNat = target.toNat / 256 := by
  rw [UInt64.toNat_shiftRight, Nat.shiftRight_eq_div_pow]
  rfl

/- The loop that normalizes a target for "compact" format. -/
def normalizeTarget
    (target : UInt64)
    (size : Int) : UInt64 × Int :=
  if size < 1 ∨ 0x007fffff < target then
    normalizeTarget (target >>> 8) (size + 1)
  else (target, size)
termination_by target.toNat + (1 - size).toNat
decreasing_by
  rename_i hRound
  rw [toNat_shiftRight_eight]
  rcases hRound with hSize | hTarget
  · omega
  · have hMore := UInt64.lt_iff_toNat_lt.mp hTarget
    change 0x007fffff < target.toNat at hMore
    omega

/- limit difficulty transition to -75% or +400% -/
def limitTimespan (timespan : Int) : Int :=
  let timespan :=
    if timespan < TARGET_TIMESPAN / 4 then
      ((TARGET_TIMESPAN / 4 : Nat) : Int)
    else timespan
  if TARGET_TIMESPAN * 4 < timespan then
    ((TARGET_TIMESPAN * 4 : Nat) : Int)
  else timespan

/- The time since the last transition, as an `int`. -/
def timespanOf
    {Hash : Type}
    (previous : BRMerkleBlock Hash)
    (transitionTime : UInt32) : Int :=
  limitTimespan
    (((previous.timestamp.toNat : Int) -
      transitionTime.toNat).bmod (2 ^ 32))

/- The target that a transition is checked for. -/
def transitionTarget
    {Hash : Type}
    (previous : BRMerkleBlock Hash)
    (transitionTime : UInt32) : UInt32 :=
  let maxsize := MAX_PROOF_OF_WORK / 2 ^ 24
  let maxtarget := MAX_PROOF_OF_WORK % 2 ^ 24
  let timespan := timespanOf previous transitionTime
  let size : Int := (previous.target >>> 24).toNat
  let target := (previous.target &&& 0x00ffffff).toUInt64
  let target := target * UInt64.ofNat timespan.toNat
  let target := target / UInt64.ofNat (TARGET_TIMESPAN / 2 ^ 8)
  -- decremented since we only divided by TARGET_TIMESPAN/256
  let (target, size) := normalizeTarget target (size - 1)
  -- limit to MAX_PROOF_OF_WORK
  let (target, size) :=
    if maxsize < size ∨
        size = maxsize ∧ maxtarget < target.toNat then
      (UInt64.ofNat maxtarget, (maxsize : Int))
    else (target, size)
  target.toUInt32 ||| UInt32.ofNat size.toNat <<< 24

/- `BRMerkleBlockVerifyDifficulty` -/
def verifyDifficulty
    {Hash : Type}
    [DecidableEq Hash]
    (block previous : BRMerkleBlock Hash)
    (transitionTime : UInt32) : Bool :=
  if block.prevBlock ≠ previous.blockHash ∨
      block.height ≠ (previous.height + 1) % 2 ^ 32 then
    false
  else if block.height % BLOCK_DIFFICULTY_INTERVAL = 0 then
    if transitionTime = 0 then false
    else
      decide
        (block.target = transitionTarget previous transitionTime)
  else decide (block.target = previous.target)

------------------------------------------------------------
-- The Rule
------------------------------------------------------------

/- The number that a target in its compact format stands for. -/
def expandTarget (target : UInt32) : Nat :=
  CompactNumber.decode
    (target.toNat % 2 ^ 23) (target.toNat / 2 ^ 24)

/- The compact format of a number. -/
def compactTargetOf (number : Nat) : Nat :=
  let (mantissa, size) := CompactNumber.encode number
  mantissa + size * 2 ^ 24

/- A target that is the compact format of its own number. -/
abbrev Normalized (target : UInt32) : Prop :=
  compactTargetOf (expandTarget target) = target.toNat

/- The time of the last transition, within its limits. -/
def ruleTimespan
    {Hash : Type}
    (previous : BRMerkleBlock Hash)
    (transitionTime : UInt32) : Nat :=
  (max ((TARGET_TIMESPAN / 4 : Nat) : Int)
    (min ((TARGET_TIMESPAN * 4 : Nat) : Int)
      (previous.timestamp.toNat - transitionTime.toNat))).toNat

/- The number behind the target, times the limited time. -/
def scaledTarget
    {Hash : Type}
    (previous : BRMerkleBlock Hash)
    (transitionTime : UInt32) : Nat :=
  expandTarget previous.target *
    ruleTimespan previous transitionTime

/- The block after this one is at a difficulty transition. -/
abbrev BeforeTransition
    {Hash : Type}
    (previous : BRMerkleBlock Hash) : Prop :=
  (previous.height + 1) % 2 ^ 32 %
    BLOCK_DIFFICULTY_INTERVAL = 0

/- The target that the rule has for the block after another. -/
def ruleTarget
    {Hash : Type}
    (previous : BRMerkleBlock Hash)
    (transitionTime : UInt32) : Nat :=
  if BeforeTransition previous then
    compactTargetOf
      (min (expandTarget (UInt32.ofNat MAX_PROOF_OF_WORK))
        (scaledTarget previous transitionTime /
          TARGET_TIMESPAN))
  else previous.target.toNat

/- A block is the one after another. -/
structure Follows
    {Hash : Type}
    (block previous : BRMerkleBlock Hash) : Prop where
  hash : block.prevBlock = previous.blockHash
  height : block.height = (previous.height + 1) % 2 ^ 32

/-
  The check accepts a block after another exactly if its target
  is that of the rule, and the product of the mantissa and the
  time is below 2^64.
-/
structure RetargetsRight
    {Hash : Type}
    [DecidableEq Hash]
    (previous : BRMerkleBlock Hash)
    (transitionTime : UInt32) : Prop where
  accepts :
    ∀ block, Follows block previous →
      (block.verifyDifficulty previous transitionTime = true ↔
        block.target.toNat = ruleTarget previous transitionTime)
  product :
    (previous.target &&& 0x00ffffff).toNat *
        (timespanOf previous transitionTime).toNat <
      2 ^ 64

/-
  A quotient by the timespan whose digits behind the point are
  zero, as far as the mantissa would keep them.
-/
def WholeTarget (scaled : Nat) : Prop :=
  2 ^ 15 * TARGET_TIMESPAN ≤ scaled ∨
    (2 ^ 7 * TARGET_TIMESPAN ≤ scaled ∧
      scaled % TARGET_TIMESPAN * 2 ^ 8 < TARGET_TIMESPAN) ∨
    (0 < scaled ∧
      scaled % TARGET_TIMESPAN * 2 ^ 16 < TARGET_TIMESPAN)

------------------------------------------------------------
-- Words
------------------------------------------------------------

/-
  The loop drops as many bytes as it needs for a size of a byte
  and a mantissa of 23 bits, and no more.
-/
theorem normalizeTarget_spec (target : UInt64) (size : Int) :
    ∃ k : Nat,
      (normalizeTarget target size).1.toNat =
          target.toNat / 256 ^ k ∧
        (normalizeTarget target size).2 = size + k ∧
        1 ≤ size + k ∧
        target.toNat / 256 ^ k < 2 ^ 23 ∧
        ∀ j < k,
          size + j < 1 ∨ 2 ^ 23 ≤ target.toNat / 256 ^ j := by
  induction target, size using normalizeTarget.induct with
  | case1 target size hRound ih =>
      rcases ih with ⟨k, hTarget, hSize, hLeast, hFits, hBefore⟩
      have hDrop (j : Nat) :
          target.toNat / 256 / 256 ^ j =
            target.toNat / 256 ^ (j + 1) := by
        rw [Nat.div_div_eq_div_mul, ← pow_succ']
      rw [toNat_shiftRight_eight, hDrop] at hTarget hFits
      unfold normalizeTarget
      rw [if_pos hRound]
      refine ⟨k + 1, hTarget, ?_, ?_, hFits, ?_⟩
      · rw [hSize]
        push_cast
        ring
      · push_cast
        omega
      · intro j hj
        cases j with
        | zero =>
            rcases hRound with hSmall | hLarge
            · left
              simpa using hSmall
            · right
              have hMore := UInt64.lt_iff_toNat_lt.mp hLarge
              rw [pow_zero, Nat.div_one]
              exact hMore
        | succ j =>
            have hStep := hBefore j (Nat.lt_of_succ_lt_succ hj)
            rw [toNat_shiftRight_eight, hDrop] at hStep
            push_cast
            rw [← add_assoc, add_right_comm]
            exact hStep
  | case2 target size hDone =>
      unfold normalizeTarget
      rw [if_neg hDone]
      rcases not_or.mp hDone with ⟨hSize, hTarget⟩
      refine ⟨0, by simp, by simp, ?_, ?_, by simp⟩
      · push_cast
        omega
      · rw [pow_zero, Nat.div_one]
        rw [UInt64.lt_iff_toNat_lt] at hTarget
        exact Nat.lt_succ_of_le (Nat.not_lt.mp hTarget)

/- The mantissa and the size in one word. -/
theorem toNat_join
    {target : UInt64}
    {size : Nat}
    (hTarget : target.toNat < 2 ^ 24)
    (hSize : size < 256) :
    (target.toUInt32 ||| UInt32.ofNat size <<< 24).toNat =
      target.toNat + size * 2 ^ 24 := by
  have hLow : target.toUInt32.toNat = target.toNat := by
    rw [UInt64.toNat_toUInt32]
    exact Nat.mod_eq_of_lt (by omega)
  have hHigh :
      (UInt32.ofNat size <<< 24).toNat = size <<< 24 := by
    rw [UInt32.toNat_shiftLeft, UInt32.toNat_ofNat_of_lt'
      (lt_trans hSize (by decide))]
    apply Nat.mod_eq_of_lt
    rw [Nat.shiftLeft_eq]
    change size * 2 ^ 24 < 2 ^ 32
    omega
  rw [UInt32.toNat_or, hLow, hHigh, Nat.or_comm,
    ← Nat.shiftLeft_add_eq_or_of_lt hTarget,
    Nat.shiftLeft_eq, add_comm]

theorem toNat_shiftRight_size (target : UInt32) :
    (target >>> 24).toNat = target.toNat / 2 ^ 24 := by
  rw [UInt32.toNat_shiftRight, Nat.shiftRight_eq_div_pow]
  rfl

theorem toNat_and_mantissa (target : UInt32) :
    (target &&& 0x00ffffff).toNat = target.toNat % 2 ^ 24 := by
  rw [UInt32.toNat_and]
  exact Nat.and_two_pow_sub_one_eq_mod _ 24

------------------------------------------------------------
-- Times
------------------------------------------------------------

variable {Hash : Type}
variable {previous : BRMerkleBlock Hash}
variable {transitionTime : UInt32}

theorem ruleTimespan_bounds
    (previous : BRMerkleBlock Hash)
    (transitionTime : UInt32) :
    302400 ≤ ruleTimespan previous transitionTime ∧
      ruleTimespan previous transitionTime ≤ 4838400 := by
  unfold ruleTimespan TARGET_TIMESPAN
  omega

/- The difference of two times of 31 bits is an `int`. -/
theorem timespanOf_eq
    (hTime : previous.timestamp.toNat < 2 ^ 31)
    (hTransition : transitionTime.toNat < 2 ^ 31) :
    timespanOf previous transitionTime =
      ruleTimespan previous transitionTime := by
  have hInt :
      ((previous.timestamp.toNat : Int) -
          transitionTime.toNat).bmod (2 ^ 32) =
        previous.timestamp.toNat - transitionTime.toNat := by
    apply Int.bmod_eq_of_le
    · omega
    · omega
  unfold timespanOf limitTimespan ruleTimespan TARGET_TIMESPAN
  rw [hInt]
  dsimp only
  split_ifs <;> omega

------------------------------------------------------------
-- Scaled Mantissas
------------------------------------------------------------

/- The fields of a normalized target. -/
theorem encode_of_normalized
    {target : UInt32}
    (hTarget : Normalized target) :
    CompactNumber.encode (expandTarget target) =
        (target.toNat % 2 ^ 24, target.toNat / 2 ^ 24) ∧
      target.toNat % 2 ^ 24 < 2 ^ 23 := by
  have hFits :=
    CompactNumber.encode_fst_lt (expandTarget target)
  unfold Normalized compactTargetOf at hTarget
  rcases hEncode : CompactNumber.encode (expandTarget target)
    with ⟨mantissa, size⟩
  rw [hEncode] at hTarget hFits
  dsimp only at hTarget hFits
  rw [Prod.mk.injEq]
  omega

theorem expandTarget_of_normalized
    {target : UInt32}
    (hTarget : Normalized target) :
    expandTarget target =
      CompactNumber.decode
        (target.toNat % 2 ^ 24) (target.toNat / 2 ^ 24) := by
  have hFits := (encode_of_normalized hTarget).2
  unfold expandTarget
  congr 1
  omega

/- The number of a normalized target, at the same scale. -/
theorem scale_of_normalized
    {target : UInt32}
    (hTarget : Normalized target) :
    256 ^ 3 * expandTarget target =
      256 ^ (target.toNat / 2 ^ 24) *
        (target.toNat % 2 ^ 24) := by
  have hEncode := (encode_of_normalized hTarget).1
  rw [expandTarget_of_normalized hTarget] at hEncode ⊢
  exact CompactNumber.scale_of_encode_decode hEncode

/- The product of 64 bits and its quotient do not wrap. -/
theorem toNat_quotient
    (target : UInt32)
    {timespan : Nat}
    (hTimespan : timespan ≤ 4838400) :
    ((target &&& 0x00ffffff).toUInt64 *
          UInt64.ofNat timespan /
        UInt64.ofNat (TARGET_TIMESPAN / 2 ^ 8)).toNat =
      target.toNat % 2 ^ 24 * timespan / 4725 := by
  have hMantissa : target.toNat % 2 ^ 24 < 2 ^ 24 :=
    Nat.mod_lt _ (by decide)
  have hProduct :
      target.toNat % 2 ^ 24 * timespan < 2 ^ 64 :=
    calc
      target.toNat % 2 ^ 24 * timespan ≤ 2 ^ 24 * 4838400 :=
        Nat.mul_le_mul hMantissa.le hTimespan
      _ < 2 ^ 64 := by decide
  rw [UInt64.toNat_div, UInt64.toNat_mul,
    UInt64.toNat_ofNat_of_lt' (lt_of_le_of_lt hTimespan
      (by decide)),
    UInt32.toNat_toUInt64, toNat_and_mantissa,
    Nat.mod_eq_of_lt hProduct]
  rfl

/-
  What is left of the product is the scaled number at the size
  that the loop ends with, and has enough digits.
-/
theorem scaled_mantissa
    {number mantissa size timespan k : Nat}
    (hScale : 256 ^ 3 * number = 256 ^ size * mantissa)
    (hMantissa : 2 ^ 15 ≤ mantissa)
    (hSize : 1 ≤ size)
    (hTimespan : 302400 ≤ timespan)
    (hBefore :
      ∀ j < k, (size : Int) - 1 + j < 1 ∨
        2 ^ 23 ≤ mantissa * timespan / 4725 / 256 ^ j) :
    256 ^ 3 * (number * timespan) /
          (TARGET_TIMESPAN * 256 ^ (size + k - 1)) =
        mantissa * timespan / 4725 / 256 ^ k ∧
      (2 ^ 15 ≤ mantissa * timespan / 4725 / 256 ^ k ∨
        0 < mantissa * timespan / 4725 / 256 ^ k ∧
          size + k - 1 ≤ 1) := by
  have hQuotient : 2 ^ 21 ≤ mantissa * timespan / 4725 := by
    rw [Nat.le_div_iff_mul_le (by decide)]
    calc
      2 ^ 21 * 4725 = 2 ^ 15 * 302400 := by decide
      _ ≤ mantissa * timespan :=
        Nat.mul_le_mul hMantissa hTimespan
  constructor
  · have hDivisor :
        TARGET_TIMESPAN * 256 ^ (size + k - 1) =
          256 ^ size * (4725 * 256 ^ k) := by
      have hStep : size + k = size + k - 1 + 1 := by omega
      calc
        TARGET_TIMESPAN * 256 ^ (size + k - 1) =
            4725 * (256 ^ (size + k - 1) * 256) := by
          unfold TARGET_TIMESPAN
          ring
        _ = 4725 * 256 ^ (size + k) := by
          rw [← pow_succ, ← hStep]
        _ = 256 ^ size * (4725 * 256 ^ k) := by
          rw [pow_add]
          ring
    rw [← mul_assoc, hScale, hDivisor, mul_assoc,
      Nat.mul_div_mul_left _ _ (by positivity),
      Nat.div_div_eq_div_mul]
  · cases k with
    | zero =>
        left
        rw [pow_zero, Nat.div_one]
        exact le_trans (by decide) hQuotient
    | succ k =>
        have hStep :
            mantissa * timespan / 4725 / 256 ^ (k + 1) =
              mantissa * timespan / 4725 / 256 ^ k / 256 := by
          rw [Nat.div_div_eq_div_mul _ (256 ^ k), ← pow_succ]
        rw [hStep]
        rcases hBefore k (Nat.lt_succ_self k) with
          hSmall | hLarge
        · right
          have hFirst : k = 0 := by omega
          rw [hFirst, pow_zero, Nat.div_one]
          omega
        · left
          omega

/- A mantissa and a size, limited to the maximum. -/
def limitTarget (mantissa size : Nat) : Nat × Nat :=
  if 29 < size ∨ size = 29 ∧ 0xffff < mantissa then
    (0xffff, 29)
  else (mantissa, size)

/- The fields of the target that is checked for. -/
theorem exists_transitionTarget
    (hTime : previous.timestamp.toNat < 2 ^ 31)
    (hTransition : transitionTime.toNat < 2 ^ 31)
    {mantissa size quotient : Nat}
    (hMantissa : mantissa = previous.target.toNat % 2 ^ 24)
    (hSize : size = previous.target.toNat / 2 ^ 24)
    (hQuotient :
      quotient =
        mantissa * ruleTimespan previous transitionTime /
          4725) :
    ∃ k,
      (transitionTarget previous transitionTime).toNat =
          (limitTarget (quotient / 256 ^ k) (size + k - 1)).1 +
            (limitTarget
              (quotient / 256 ^ k) (size + k - 1)).2 *
              2 ^ 24 ∧
        1 ≤ (size : Int) - 1 + k ∧
        quotient / 256 ^ k < 2 ^ 23 ∧
        ∀ j < k, (size : Int) - 1 + j < 1 ∨
          2 ^ 23 ≤ quotient / 256 ^ j := by
  have hWord := toNat_quotient previous.target
    (ruleTimespan_bounds previous transitionTime).2
  rw [← hMantissa, ← hQuotient] at hWord
  rcases normalizeTarget_spec
      ((previous.target &&& 0x00ffffff).toUInt64 *
          UInt64.ofNat (ruleTimespan previous transitionTime) /
        UInt64.ofNat (TARGET_TIMESPAN / 2 ^ 8))
      ((previous.target >>> 24).toNat - 1) with
    ⟨k, hTarget, hEnd, hLeast, hFits, hBefore⟩
  rw [hWord] at hTarget hFits hBefore
  rw [toNat_shiftRight_size, ← hSize] at hEnd hLeast hBefore
  refine ⟨k, ?_, hLeast, hFits, hBefore⟩
  have hNat :
      ((size : Int) - 1 + k) = ((size + k - 1 : Nat) : Int) := by
    omega
  rw [hNat] at hEnd
  unfold transitionTarget
  dsimp only
  rw [timespanOf_eq hTime hTransition, Int.toNat_natCast,
    toNat_shiftRight_size, ← hSize]
  rw [toNat_shiftRight_size, ← hSize] at hTarget
  generalize normalizeTarget _ _ = normal at hTarget hEnd ⊢
  rcases normal with ⟨target, last⟩
  dsimp only at hTarget hEnd ⊢
  have hMaxSize : MAX_PROOF_OF_WORK / 2 ^ 24 = 29 := rfl
  have hMaxTarget : MAX_PROOF_OF_WORK % 2 ^ 24 = 0xffff := rfl
  rw [hEnd, hTarget, hMaxSize, hMaxTarget]
  generalize size + k - 1 = last
  have hLimit :
      ((29 : Nat) : Int) < last ∨
          (last : Int) = (29 : Nat) ∧
            0xffff < quotient / 256 ^ k ↔
        29 < last ∨ last = 29 ∧ 0xffff < quotient / 256 ^ k := by
    rw [Nat.cast_lt, Nat.cast_inj]
  unfold limitTarget
  by_cases hOver :
      29 < last ∨ last = 29 ∧ 0xffff < quotient / 256 ^ k
  · rw [if_pos (hLimit.mpr hOver), if_pos hOver]
    decide
  · rw [if_neg (hLimit.not.mpr hOver), if_neg hOver]
    dsimp only
    rw [Int.toNat_natCast, toNat_join, hTarget]
    · rw [hTarget]
      omega
    · omega

------------------------------------------------------------
-- The Two Targets
------------------------------------------------------------

/- The digits that a mantissa of a size keeps. -/
theorem wholeTarget_iff
    {scaled mantissa size : Nat}
    (hScaled :
      256 ^ 3 * scaled / (TARGET_TIMESPAN * 256 ^ size) =
        mantissa)
    (hSize : 1 ≤ size)
    (hLow : 2 ^ 15 ≤ mantissa ∨ 0 < mantissa ∧ size ≤ 1)
    (hHigh : mantissa < 2 ^ 23) :
    WholeTarget scaled ↔
      3 ≤ size ∨
        scaled % TARGET_TIMESPAN * 256 ^ (3 - size) <
          TARGET_TIMESPAN := by
  have hPositive :
      0 < TARGET_TIMESPAN * 256 ^ size := by
    unfold TARGET_TIMESPAN
    positivity
  have hLeast :
      mantissa * (TARGET_TIMESPAN * 256 ^ size) ≤
        256 ^ 3 * scaled := by
    rw [← hScaled]
    exact Nat.div_mul_le_self _ _
  have hMost :
      256 ^ 3 * scaled <
        2 ^ 23 * (TARGET_TIMESPAN * 256 ^ size) := by
    rw [← Nat.div_lt_iff_lt_mul hPositive, hScaled]
    exact hHigh
  unfold WholeTarget
  rcases le_or_gt 3 size with hLarge | hSmall
  · have hPower : 256 ^ 3 ≤ 256 ^ size :=
      Nat.pow_le_pow_right (by decide) hLarge
    refine iff_of_true (Or.inl ?_) (Or.inl hLarge)
    apply Nat.le_of_mul_le_mul_left _
      (show 0 < 256 ^ 3 by positivity)
    apply le_trans _ hLeast
    calc
      256 ^ 3 * (2 ^ 15 * TARGET_TIMESPAN) =
          2 ^ 15 * (TARGET_TIMESPAN * 256 ^ 3) := by ring
      _ ≤ mantissa * (TARGET_TIMESPAN * 256 ^ size) :=
        Nat.mul_le_mul (by omega)
          (Nat.mul_le_mul_left _ hPower)
  · have hNonzero : 0 < scaled := by
      apply Nat.pos_of_ne_zero
      rintro rfl
      rw [Nat.mul_zero, Nat.le_zero_eq, mul_eq_zero] at hLeast
      omega
    have hDigits :
        2 ^ 15 ≤ mantissa →
          2 ^ 15 * (TARGET_TIMESPAN * 256 ^ size) ≤
            256 ^ 3 * scaled :=
      fun hMantissa =>
        (Nat.mul_le_mul_right _ hMantissa).trans hLeast
    clear hLeast hScaled
    generalize TARGET_TIMESPAN = timespan at *
    generalize scaled % timespan = digits
    interval_cases size
    · omega
    · omega

/-
  The limit is that of the numbers, where a mantissa of fewer
  than three bytes is within it.
-/
theorem limitTarget_iff
    {scaled mantissa size : Nat}
    (hScaled :
      256 ^ 3 * scaled / (TARGET_TIMESPAN * 256 ^ size) =
        mantissa)
    (hHigh : mantissa < 2 ^ 23)
    (hLarge :
      3 ≤ size →
        CompactNumber.encode (scaled / TARGET_TIMESPAN) =
          (mantissa, size)) :
    (limitTarget mantissa size).1 +
          (limitTarget mantissa size).2 * 2 ^ 24 =
        compactTargetOf
          (min (CompactNumber.decode 0xffff 29)
            (scaled / TARGET_TIMESPAN)) ↔
      CompactNumber.encode (scaled / TARGET_TIMESPAN) =
        (mantissa, size) := by
  constructor
  · intro hSame
    by_cases hSize : 3 ≤ size
    · exact hLarge hSize
    have hScaledLt :
        scaled / TARGET_TIMESPAN < 2 ^ 15 := by
      have hMost :
          256 ^ 3 * scaled <
            2 ^ 23 * (TARGET_TIMESPAN * 256 ^ size) := by
        rw [← Nat.div_lt_iff_lt_mul, hScaled]
        · exact hHigh
        · unfold TARGET_TIMESPAN
          positivity
      have hPower : 256 ^ size ≤ 256 ^ 2 :=
        Nat.pow_le_pow_right (by decide) (by omega)
      rw [Nat.div_lt_iff_lt_mul (by decide)]
      unfold TARGET_TIMESPAN at hMost ⊢
      omega
    have hMin :
        min (CompactNumber.decode 0xffff 29)
            (scaled / TARGET_TIMESPAN) =
          scaled / TARGET_TIMESPAN := by
      apply min_eq_right
      apply hScaledLt.le.trans
      decide
    have hWithin : limitTarget mantissa size = (mantissa, size) := by
      unfold limitTarget
      rw [if_neg (by omega)]
    rw [hMin, hWithin] at hSame
    have hFits :=
      CompactNumber.encode_fst_lt (scaled / TARGET_TIMESPAN)
    unfold compactTargetOf at hSame
    rcases hEncode :
        CompactNumber.encode (scaled / TARGET_TIMESPAN) with
      ⟨otherMantissa, otherSize⟩
    rw [hEncode] at hSame hFits
    dsimp only at hSame hFits
    rw [Prod.mk.injEq]
    omega
  · intro hEncode
    have hMin := CompactNumber.encode_min
      (scaled / TARGET_TIMESPAN)
      (show 2 ^ 15 ≤ 0xffff by decide) (by decide)
      (show 3 ≤ 29 by decide)
    rw [hEncode] at hMin
    unfold compactTargetOf
    rw [hMin]
    rfl

/- A target of zero is written with a size of one. -/
theorem transitionTarget_of_zero
    (hTarget : Normalized previous.target)
    (hTime : previous.timestamp.toNat < 2 ^ 31)
    (hTransition : transitionTime.toNat < 2 ^ 31)
    (hZero : expandTarget previous.target = 0) :
    (transitionTarget previous transitionTime).toNat =
      2 ^ 24 := by
  have hEncode := (encode_of_normalized hTarget).1
  have hPair : CompactNumber.encode 0 = (0, 0) := rfl
  rw [hZero, hPair] at hEncode
  rcases Prod.mk.inj hEncode with ⟨hMantissa, hSize⟩
  rcases exists_transitionTarget hTime hTransition
      hMantissa hSize rfl with
    ⟨k, hFields, hLeast, -, hBefore⟩
  have hRounds : k = 2 := by
    by_contra hOther
    have hThird := hBefore 2 (by omega)
    rw [Nat.zero_mul, Nat.zero_div] at hThird
    omega
  rw [hFields, hRounds, Nat.zero_mul, Nat.zero_div]
  rfl

/- The targets of the code and of the rule. -/
theorem transitionTarget_iff
    (hTarget : Normalized previous.target)
    (hTime : previous.timestamp.toNat < 2 ^ 31)
    (hTransition : transitionTime.toNat < 2 ^ 31) :
    (transitionTarget previous transitionTime).toNat =
        compactTargetOf
          (min (expandTarget (UInt32.ofNat MAX_PROOF_OF_WORK))
            (scaledTarget previous transitionTime /
              TARGET_TIMESPAN)) ↔
      WholeTarget (scaledTarget previous transitionTime) := by
  have hMaximum :
      expandTarget (UInt32.ofNat MAX_PROOF_OF_WORK) =
        CompactNumber.decode 0xffff 29 := rfl
  rw [hMaximum]
  rcases Nat.eq_zero_or_pos (expandTarget previous.target) with
    hZero | hPositive
  · rw [transitionTarget_of_zero hTarget hTime hTransition hZero]
    unfold scaledTarget
    rw [hZero, Nat.zero_mul]
    refine iff_of_false (by decide) ?_
    unfold WholeTarget TARGET_TIMESPAN
    omega
  have hEncode := (encode_of_normalized hTarget).1
  rcases CompactNumber.encode_spec hPositive with
    ⟨hMantissa, hMantissaFits⟩
  rw [hEncode] at hMantissa hMantissaFits
  have hScale := scale_of_normalized hTarget
  rcases exists_transitionTarget hTime hTransition
      rfl rfl rfl with
    ⟨k, hFields, hLeast, hFits, hBefore⟩
  rw [hFields]
  dsimp only at hMantissa hMantissaFits
  generalize previous.target.toNat % 2 ^ 24 = mantissa at *
  generalize previous.target.toNat / 2 ^ 24 = size at *
  have hSize : 1 ≤ size := by
    by_contra hNone
    have hBytes : size = 0 := by omega
    rw [hBytes, pow_zero] at hScale
    omega
  rcases scaled_mantissa hScale hMantissa hSize
      (ruleTimespan_bounds previous transitionTime).1
      hBefore with
    ⟨hScaled, hLow⟩
  have hEnd : 1 ≤ size + k - 1 := by omega
  have hWhole := wholeTarget_iff hScaled hEnd hLow hFits
  have hDivide := CompactNumber.encode_div_iff
    (show 0 < TARGET_TIMESPAN by decide) hScaled hLow hFits
  change WholeTarget (scaledTarget previous transitionTime) ↔ _
    at hWhole
  change CompactNumber.encode
      (scaledTarget previous transitionTime /
        TARGET_TIMESPAN) = _ ↔ _ at hDivide
  change
    256 ^ 3 * scaledTarget previous transitionTime / _ = _
      at hScaled
  rw [hWhole, ← hDivide]
  generalize
    mantissa * ruleTimespan previous transitionTime / 4725 /
      256 ^ k = last at *
  generalize size + k - 1 = lastSize at *
  generalize
    scaledTarget previous transitionTime = scaled at *
  exact limitTarget_iff hScaled hFits fun hLarge =>
    hDivide.mpr (Or.inl hLarge)

------------------------------------------------------------
-- Blocks
------------------------------------------------------------

/- The rule has a target of 32 bits. -/
theorem ruleTarget_lt
    (previous : BRMerkleBlock Hash)
    (transitionTime : UInt32) :
    ruleTarget previous transitionTime < 2 ^ 32 := by
  unfold ruleTarget
  split_ifs
  · have hMin := CompactNumber.encode_min
      (scaledTarget previous transitionTime / TARGET_TIMESPAN)
      (show 2 ^ 15 ≤ 0xffff by decide) (by decide)
      (show 3 ≤ 29 by decide)
    have hFits := CompactNumber.encode_fst_lt
      (scaledTarget previous transitionTime / TARGET_TIMESPAN)
    change compactTargetOf
      (min (CompactNumber.decode 0xffff 29) _) < _
    unfold compactTargetOf
    rw [hMin]
    rcases hEncode :
        CompactNumber.encode
          (scaledTarget previous transitionTime /
            TARGET_TIMESPAN) with
      ⟨mantissa, size⟩
    rw [hEncode] at hFits
    dsimp only at hFits ⊢
    by_cases hOver :
        29 < size ∨ size = 29 ∧ 0xffff < mantissa
    · rw [if_pos hOver]
      decide
    · rw [if_neg hOver]
      dsimp only
      omega
  · exact previous.target.toNat_lt

/- A block after another with any target. -/
def blockAfter
    (previous : BRMerkleBlock Hash)
    (target : UInt32) : BRMerkleBlock Hash :=
  { previous with
    prevBlock := previous.blockHash
    height := (previous.height + 1) % 2 ^ 32
    target := target }

theorem blockAfter_follows
    (previous : BRMerkleBlock Hash)
    (target : UInt32) :
    Follows (blockAfter previous target) previous :=
  ⟨rfl, rfl⟩

/- No product of the check wraps around. -/
theorem product_lt
    (previous : BRMerkleBlock Hash)
    (transitionTime : UInt32) :
    (previous.target &&& 0x00ffffff).toNat *
        (timespanOf previous transitionTime).toNat <
      2 ^ 64 := by
  have hMantissa :
      (previous.target &&& 0x00ffffff).toNat ≤ 2 ^ 24 := by
    rw [toNat_and_mantissa]
    exact (Nat.mod_lt _ (by decide)).le
  have hTimespan :
      (timespanOf previous transitionTime).toNat ≤ 4838400 := by
    unfold timespanOf limitTimespan TARGET_TIMESPAN
    dsimp only
    split_ifs <;> omega
  exact lt_of_le_of_lt (Nat.mul_le_mul hMantissa hTimespan)
    (by decide)

variable [DecidableEq Hash]

/- What is checked of a block after another. -/
theorem verifyDifficulty_of_follows
    {block : BRMerkleBlock Hash}
    (hFollows : Follows block previous) :
    block.verifyDifficulty previous transitionTime = true ↔
      if BeforeTransition previous then
        transitionTime ≠ 0 ∧
          block.target = transitionTarget previous transitionTime
      else block.target = previous.target := by
  unfold verifyDifficulty
  rw [hFollows.hash, hFollows.height, if_neg (by simp)]
  split_ifs with hHeight hTime
  · simp [hTime]
  · simp [hTime]
  · simp

/-
  Blocks before a transition are checked for the target of the
  rule if the time of the last transition is not zero and the
  new target has no digits behind the point.
-/
theorem retargetsRight_iff
    (hTarget :
      BeforeTransition previous → Normalized previous.target)
    (hTime :
      BeforeTransition previous →
        previous.timestamp.toNat < 2 ^ 31)
    (hTransition :
      BeforeTransition previous →
        transitionTime.toNat < 2 ^ 31) :
    RetargetsRight previous transitionTime ↔
      (BeforeTransition previous →
        transitionTime ≠ 0 ∧
          WholeTarget
            (scaledTarget previous transitionTime)) := by
  constructor
  · intro hRight hBefore
    have hTargets := transitionTarget_iff
      (hTarget hBefore) (hTime hBefore) (hTransition hBefore)
    have hRule :
        ruleTarget previous transitionTime = _ :=
      if_pos hBefore
    have hNonzero : transitionTime ≠ 0 := by
      have hAccepts := hRight.accepts _
        (blockAfter_follows previous
          (UInt32.ofNat (ruleTarget previous transitionTime)))
      rw [verifyDifficulty_of_follows
        (blockAfter_follows previous _), if_pos hBefore]
        at hAccepts
      exact (hAccepts.mpr
        (UInt32.toNat_ofNat_of_lt'
          (ruleTarget_lt previous transitionTime))).1
    refine ⟨hNonzero, hTargets.mp ?_⟩
    have hAccepts := hRight.accepts _
      (blockAfter_follows previous
        (transitionTarget previous transitionTime))
    rw [verifyDifficulty_of_follows
      (blockAfter_follows previous _), if_pos hBefore, hRule]
      at hAccepts
    exact hAccepts.mp ⟨hNonzero, rfl⟩
  · intro hCondition
    refine ⟨?_, product_lt previous transitionTime⟩
    intro block hFollows
    rw [verifyDifficulty_of_follows hFollows]
    unfold ruleTarget
    split_ifs with hBefore
    · rcases hCondition hBefore with ⟨hNonzero, hWhole⟩
      have hTargets := (transitionTarget_iff
        (hTarget hBefore) (hTime hBefore)
        (hTransition hBefore)).mpr hWhole
      rw [← hTargets, UInt32.toNat_inj]
      exact and_iff_right hNonzero
    · exact UInt32.toNat_inj.symm

/- The last block before a transition, with a target. -/
def lastBlock
    (target timestamp : UInt32) : BRMerkleBlock Nat where
  blockHash := 1
  version := 1
  prevBlock := 0
  merkleRoot := 0
  timestamp := timestamp
  target := target
  nonce := 0
  totalTx := 0
  hashes := []
  hashesCount := 0
  flags := []
  flagsLen := 0
  height := 2015

/- Two weeks and a half of a common target. -/
theorem lastBlock_right :
    BeforeTransition (lastBlock 0x1b0404cb 1417501) ∧
      RetargetsRight (lastBlock 0x1b0404cb 1417501) 1 :=
  ⟨by decide, (retargetsRight_iff
    (fun _ => by decide +kernel) (fun _ => by decide)
    (fun _ => by decide)).mpr
      fun _ => ⟨by decide, Or.inl (by decide +kernel)⟩⟩

/- The same time and a target of one byte. -/
theorem lastBlock_not_right :
    BeforeTransition (lastBlock 0x01120000 1417501) ∧
      Normalized 0x01120000 ∧
      ¬ RetargetsRight (lastBlock 0x01120000 1417501) 1 := by
  refine ⟨by decide, by decide +kernel, ?_⟩
  intro hRight
  have hAccepts := hRight.accepts
    (blockAfter (lastBlock 0x01120000 1417501) 0x01150000)
    (blockAfter_follows _ _)
  have hRejects :
      (blockAfter (lastBlock 0x01120000 1417501)
          0x01150000).verifyDifficulty
        (lastBlock 0x01120000 1417501) 1 = false := by
    decide +kernel
  have hRule :
      ruleTarget (lastBlock 0x01120000 1417501) 1 =
        0x01150000 := by
    decide +kernel
  rw [hRejects, hRule] at hAccepts
  exact absurd (hAccepts.mpr rfl) (by decide)

end BRMerkleBlock

end PlusWallet
