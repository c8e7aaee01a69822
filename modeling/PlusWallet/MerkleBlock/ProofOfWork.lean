import PlusWallet.Library.ByteOrder
import PlusWallet.Library.CompactNumber
import PlusWallet.MerkleBlock.Parse

/-
  What `BRMerkleBlockIsValid` makes of a target and a hash.

  Main declarations:
    * `proofOfWork`, `isValid_eq`
    * `compactTarget`
    * `WorkExact`, `workExact_iff`
-/

namespace PlusWallet

namespace BRMerkleBlock

open Bytes

------------------------------------------------------------
-- The Part About the Target
------------------------------------------------------------

/- check if proof-of-work target is out of range -/
def isTargetInRange (target : UInt32) : Bool :=
  let maxsize := MAX_PROOF_OF_WORK / 2 ^ 24
  let maxtarget := MAX_PROOF_OF_WORK % 2 ^ 24
  let size := target.toNat / 2 ^ 24
  let target := target.toNat % 2 ^ 24
  !(decide (target = 0) || target.testBit 23 ||
    decide (maxsize < size) ||
    decide (size = maxsize ∧ maxtarget < target))

/-
  The part of `BRMerkleBlockIsValid` about the proof of work,
  `none` if it writes outside the bytes of the target
-/
def proofOfWork
    (block : BRMerkleBlock UInt256) : Option Bool := do
  let size := block.target.toNat / 2 ^ 24
  let target := block.target.toNat % 2 ^ 24
  let t ← targetBytes size target
  some
    (isTargetInRange block.target &&
      !isAbove block.blockHash.toList.reverse t.reverse)

/- The rest of the check does not depend on it. -/
theorem isValid_eq
    (sha256_2 : List UInt8 → UInt256)
    (block : BRMerkleBlock UInt256)
    (currentTime : UInt32) :
    block.isValid sha256_2 currentTime =
      (block.computedRoot fun left right =>
          sha256_2 (left.toList ++ right.toList)).bind
        fun merkleRoot =>
          block.proofOfWork.map fun isWorked =>
            decide
                (block.totalTx = 0 ∨
                  merkleRoot = block.merkleRoot) &&
              decide
                (block.timestamp ≤
                  currentTime + BLOCK_MAX_TIME_DRIFT) &&
              isWorked := by
  unfold isValid proofOfWork
  simp only [Option.bind_eq_bind]
  congr 1
  funext merkleRoot
  cases
      targetBytes (block.target.toNat / 2 ^ 24)
        (block.target.toNat % 2 ^ 24) with
  | none => rfl
  | some t =>
      simp only [Option.bind_some, Option.map_some,
        Bool.and_assoc]
      rfl

------------------------------------------------------------
-- Comparing Bytes
------------------------------------------------------------

/- The loop compares the numbers that the bytes stand for. -/
theorem isAbove_eq
    {bytes limits : List UInt8}
    (hLength : bytes.length = limits.length) :
    isAbove bytes limits =
      decide (ofBigEndian limits < ofBigEndian bytes) := by
  induction bytes generalizing limits with
  | nil =>
      rw [List.length_nil, eq_comm, List.length_eq_zero_iff]
        at hLength
      subst hLength
      rfl
  | cons byte bytes ih =>
      cases limits with
      | nil => cases hLength
      | cons limit limits =>
          have hRest := Nat.succ.inj hLength
          unfold isAbove
          rw [ih hRest, Bool.eq_iff_iff, decide_eq_true_iff,
            ofBigEndian_lt_cons_iff hRest]
          split_ifs with hLess hMore
          · rw [UInt8.lt_iff_toNat_lt] at hLess
            simp only [false_iff]
            rintro (hBelow | ⟨rfl, -⟩)
            · rw [UInt8.lt_iff_toNat_lt] at hBelow
              omega
            · omega
          · simp [hMore]
          · have hSame : limit = byte := by
              rw [UInt8.lt_iff_toNat_lt] at hLess hMore
              apply UInt8.toNat_inj.mp
              omega
            simp [hSame, UInt8.lt_irrefl]

/- The number that is compared with a hash. -/
def wholeTarget (size target : Nat) : Nat :=
  if 3 < size then target * 256 ^ (size - 3)
  else target / 256 ^ (3 - size)

/- The bytes of a target, where they fit. -/
theorem targetBytes_spec
    {size target : Nat}
    (hSize : size ≤ 31)
    (hTarget : target < 2 ^ 24) :
    ∃ t, targetBytes size target = some t ∧
      t.length = 32 ∧
      ofLittleEndian t = wholeTarget size target := by
  have hFits : target < 256 ^ 4 := by omega
  unfold targetBytes wholeTarget
  split_ifs with hLarge hInside
  · refine ⟨_, rfl, ?_, ?_⟩
    · simp only [List.length_append, List.length_replicate,
        length_littleEndian]
      omega
    · simp only [ofLittleEndian_append, ofLittleEndian_zeros,
        List.length_replicate, mul_zero, add_zero, zero_add,
        ofLittleEndian_littleEndian 4 hFits]
      exact Nat.mul_comm _ _
  · omega
  · have hPower :
        2 ^ ((3 - size) * 8) = 256 ^ (3 - size) := by
      rw [mul_comm, pow_mul]
      norm_num
    refine ⟨_, rfl, ?_, ?_⟩
    · simp
    · rw [ofLittleEndian_append, ofLittleEndian_zeros,
        ofLittleEndian_littleEndian 4
          (lt_of_le_of_lt (Nat.div_le_self _ _) hFits),
        hPower]
      rfl

/- A larger size is written behind the bytes. -/
theorem targetBytes_eq_none
    {size : Nat}
    (hSize : 31 < size)
    (target : Nat) :
    targetBytes size target = none := by
  unfold targetBytes
  rw [if_pos (by omega), if_neg (by omega)]

------------------------------------------------------------
-- What a Target Stands For
------------------------------------------------------------

/- The size in bytes of a target. -/
def targetSize (target : UInt32) : Nat :=
  target.toNat / 2 ^ 24

/- The mantissa with the bit of the sign. -/
def targetMantissa (target : UInt32) : Nat :=
  target.toNat % 2 ^ 24

/- The number of a target in its compact format. -/
def compactTarget (target : UInt32) : ℚ :=
  let magnitude :=
    CompactNumber.value (target.toNat % 2 ^ 23)
      (targetSize target)
  if (targetMantissa target).testBit 23 then -magnitude
  else magnitude

/- The hash read as a number. -/
def hashNumber (block : BRMerkleBlock UInt256) : Nat :=
  ofLittleEndian block.blockHash.toList

/-
  The proof of work is checked inside the bytes of the target,
  and passes exactly if the target is positive and within the
  maximum and the hash is at most the target.
-/
structure WorkExact
    (block : BRMerkleBlock UInt256) : Prop where
  inside : block.proofOfWork ≠ none
  exact_ :
    block.proofOfWork = some true ↔
      0 < compactTarget block.target ∧
        compactTarget block.target ≤
          compactTarget (UInt32.ofNat MAX_PROOF_OF_WORK) ∧
        (block.hashNumber : ℚ) ≤ compactTarget block.target

/-
  The size is one of the bytes of a target, and no target of
  size 30 that is within the maximum is met by the hash.
-/
def WorkSafe (block : BRMerkleBlock UInt256) : Prop :=
  targetSize block.target ≤ 31 ∧
    ¬ (targetSize block.target = 30 ∧
      0 < targetMantissa block.target ∧
      targetMantissa block.target ≤ 0xff ∧
      (block.hashNumber : ℚ) ≤ compactTarget block.target)

theorem testBit_mantissa (target : UInt32) :
    (targetMantissa target).testBit 23 = true ↔
      2 ^ 23 ≤ targetMantissa target := by
  have hLt : targetMantissa target < 2 ^ 24 :=
    Nat.mod_lt _ (by decide)
  rw [Nat.testBit_eq_decide_div_mod_eq, decide_eq_true_iff]
  omega

/- A target without the sign is the one of its mantissa. -/
theorem compactTarget_of_lt
    {target : UInt32}
    (hSign : targetMantissa target < 2 ^ 23) :
    compactTarget target =
      CompactNumber.value (targetMantissa target)
        (targetSize target) := by
  have hClear :
      ¬ (targetMantissa target).testBit 23 = true := by
    rw [testBit_mantissa]
    omega
  have hMantissa :
      target.toNat % 2 ^ 23 = targetMantissa target := by
    unfold targetMantissa at hSign ⊢
    omega
  unfold compactTarget
  simp only [if_neg hClear, hMantissa]

/- A target with the sign is not positive. -/
theorem not_compactTarget_pos
    {target : UInt32}
    (hSign : 2 ^ 23 ≤ targetMantissa target) :
    ¬ 0 < compactTarget target := by
  have hSet := (testBit_mantissa target).mpr hSign
  have hMagnitude :
      0 ≤
        CompactNumber.value (target.toNat % 2 ^ 23)
          (targetSize target) := by
    rw [CompactNumber.value]
    positivity
  unfold compactTarget
  simp only [if_pos hSet, not_lt, neg_nonpos]
  exact hMagnitude

theorem isTargetInRange_iff (target : UInt32) :
    isTargetInRange target = true ↔
      0 < targetMantissa target ∧
        targetMantissa target < 2 ^ 23 ∧
        (targetSize target < 29 ∨
          (targetSize target = 29 ∧
            targetMantissa target ≤ 0xffff)) := by
  have hBit := testBit_mantissa target
  have hSize : MAX_PROOF_OF_WORK / 2 ^ 24 = 29 := rfl
  have hTarget : MAX_PROOF_OF_WORK % 2 ^ 24 = 0xffff := rfl
  unfold isTargetInRange
  change
    (!(decide (targetMantissa target = 0) ||
        (targetMantissa target).testBit 23 ||
        decide (MAX_PROOF_OF_WORK / 2 ^ 24 < targetSize target) ||
        decide
          (targetSize target = MAX_PROOF_OF_WORK / 2 ^ 24 ∧
            MAX_PROOF_OF_WORK % 2 ^ 24 <
              targetMantissa target))) = true ↔ _
  rw [hSize, hTarget, Bool.not_eq_true', Bool.eq_false_iff]
  simp only [ne_eq, Bool.or_eq_true, decide_eq_true_eq, hBit]
  omega

/- The maximum bounds sizes up to 30. -/
theorem compactTarget_le_max_iff
    {target : UInt32}
    (hPositive : 0 < targetMantissa target)
    (hSign : targetMantissa target < 2 ^ 23) :
    compactTarget target ≤
        compactTarget (UInt32.ofNat MAX_PROOF_OF_WORK) ↔
      targetSize target < 29 ∨
        (targetSize target = 29 ∧
          targetMantissa target ≤ 0xffff) ∨
        (targetSize target = 30 ∧
          targetMantissa target ≤ 0xff) := by
  have hMax :
      compactTarget (UInt32.ofNat MAX_PROOF_OF_WORK) =
        CompactNumber.value 0xffff 29 :=
    compactTarget_of_lt (by decide)
  rw [compactTarget_of_lt hSign, hMax,
    CompactNumber.value_le_value_iff]
  generalize targetMantissa target = mantissa at *
  rcases lt_trichotomy (targetSize target) 29 with
    hSmall | hSame | hLarge
  · simp only [hSmall, true_or, iff_true]
    calc
      mantissa * 256 ^ targetSize target
          ≤ 2 ^ 23 * 256 ^ 28 :=
        Nat.mul_le_mul hSign.le
          (Nat.pow_le_pow_right (by decide) (by omega))
      _ ≤ 0xffff * 256 ^ 29 := by norm_num
  · rw [hSame]
    simp only [lt_irrefl, true_and, false_or]
    rw [Nat.mul_le_mul_right_iff (by positivity)]
    omega
  · rcases Nat.eq_or_lt_of_le hLarge with hNext | hMore
    · rw [← hNext]
      have hPower : 256 ^ (Nat.succ 29) = 256 * 256 ^ 29 := by
        norm_num
      rw [hPower, ← mul_assoc,
        Nat.mul_le_mul_right_iff (by positivity)]
      omega
    · have hTooLarge :
          0xffff * 256 ^ 29 <
            mantissa * 256 ^ targetSize target := by
        calc
          0xffff * 256 ^ 29 < 1 * 256 ^ 31 := by norm_num
          _ ≤ mantissa * 256 ^ targetSize target :=
            Nat.mul_le_mul hPositive
              (Nat.pow_le_pow_right (by decide) hMore)
      omega

/- A hash is compared with the whole part of the target. -/
theorem hashNumber_le_iff
    {block : BRMerkleBlock UInt256}
    (hSign : targetMantissa block.target < 2 ^ 23) :
    (block.hashNumber : ℚ) ≤ compactTarget block.target ↔
      block.hashNumber ≤
        wholeTarget (targetSize block.target)
          (targetMantissa block.target) := by
  rw [compactTarget_of_lt hSign]
  unfold wholeTarget
  split_ifs with hLarge
  · exact
      CompactNumber.natCast_le_value_iff_of_lt _ _ hLarge
  · exact
      CompactNumber.natCast_le_value_iff_of_le _ _
        (not_lt.mp hLarge)

/- Where the bytes fit, the numbers are compared. -/
theorem proofOfWork_eq
    {block : BRMerkleBlock UInt256}
    (hSize : targetSize block.target ≤ 31) :
    block.proofOfWork =
      some
        (isTargetInRange block.target &&
          decide
            (block.hashNumber ≤
              wholeTarget (targetSize block.target)
                (targetMantissa block.target))) := by
  rcases
      targetBytes_spec hSize
        (Nat.mod_lt block.target.toNat (by decide)) with
    ⟨t, hBytes, hLength, hValue⟩
  have hSame :
      block.blockHash.toList.reverse.length =
        t.reverse.length := by
    simp [hLength]
  have hAbove := isAbove_eq hSame
  unfold ofBigEndian at hAbove
  rw [List.reverse_reverse, List.reverse_reverse, hValue]
    at hAbove
  unfold proofOfWork
  change
    (targetBytes (targetSize block.target)
        (targetMantissa block.target) >>=
      _) = _
  unfold targetMantissa
  rw [hBytes]
  change some (_ && !isAbove _ _) = _
  simp only [hAbove, ← decide_not, not_lt]
  rfl

/- What passes where the bytes of the target fit. -/
theorem passes_iff
    {block : BRMerkleBlock UInt256}
    (hSize : targetSize block.target ≤ 31) :
    block.proofOfWork = some true ↔
      (0 < targetMantissa block.target ∧
        targetMantissa block.target < 2 ^ 23 ∧
        (targetSize block.target < 29 ∨
          (targetSize block.target = 29 ∧
            targetMantissa block.target ≤ 0xffff))) ∧
        (block.hashNumber : ℚ) ≤
          compactTarget block.target := by
  rw [proofOfWork_eq hSize, Option.some_inj,
    Bool.and_eq_true, isTargetInRange_iff, decide_eq_true_iff]
  constructor
  · rintro ⟨hRange, hHash⟩
    exact ⟨hRange, (hashNumber_le_iff hRange.2.1).mpr hHash⟩
  · rintro ⟨hRange, hHash⟩
    exact ⟨hRange, (hashNumber_le_iff hRange.2.1).mp hHash⟩

/-
  The check is exact if and only if the size is one of the
  bytes of a target, and no target of size 30 within the
  maximum is met.
-/
theorem workExact_iff (block : BRMerkleBlock UInt256) :
    WorkExact block ↔ WorkSafe block := by
  by_cases hSize : targetSize block.target ≤ 31
  · have hInside : block.proofOfWork ≠ none := by
      rw [proofOfWork_eq hSize]
      nofun
    have hPasses := passes_iff hSize
    by_cases hSign : targetMantissa block.target < 2 ^ 23
    · have hPositive :
          0 < compactTarget block.target ↔
            0 < targetMantissa block.target := by
        rw [compactTarget_of_lt hSign]
        exact CompactNumber.value_pos_iff _ _
      constructor
      · rintro ⟨-, hExact⟩
        refine ⟨hSize, ?_⟩
        rintro ⟨hThirty, hMantissa, hByte, hMeets⟩
        have hMax :=
          (compactTarget_le_max_iff hMantissa hSign).mpr
            (Or.inr (Or.inr ⟨hThirty, hByte⟩))
        have hRange :=
          hPasses.mp
            (hExact.mpr ⟨hPositive.mpr hMantissa, hMax, hMeets⟩)
        omega
      · rintro ⟨-, hUnmet⟩
        refine ⟨hInside, hPasses.trans ?_⟩
        constructor
        · rintro ⟨⟨hMantissa, -, hRange⟩, hMeets⟩
          refine ⟨hPositive.mpr hMantissa, ?_, hMeets⟩
          apply (compactTarget_le_max_iff hMantissa hSign).mpr
          rcases hRange with hSmall | hTop
          · exact Or.inl hSmall
          · exact Or.inr (Or.inl hTop)
        · rintro ⟨hAbove, hMax, hMeets⟩
          have hMantissa := hPositive.mp hAbove
          refine ⟨⟨hMantissa, hSign, ?_⟩, hMeets⟩
          rcases
              (compactTarget_le_max_iff hMantissa hSign).mp
                hMax with
            hSmall | hTop | ⟨hThirty, hByte⟩
          · exact Or.inl hSmall
          · exact Or.inr hTop
          · exact
              absurd ⟨hThirty, hMantissa, hByte, hMeets⟩ hUnmet
    · have hNone :=
        not_compactTarget_pos (not_lt.mp hSign)
      constructor
      · intro _
        refine ⟨hSize, ?_⟩
        rintro ⟨-, -, hByte, -⟩
        omega
      · intro _
        refine ⟨hInside, hPasses.trans ?_⟩
        constructor
        · rintro ⟨⟨-, hClear, -⟩, -⟩
          exact absurd hClear hSign
        · rintro ⟨hAbove, -, -⟩
          exact absurd hAbove hNone
  · have hOutside : block.proofOfWork = none := by
      unfold proofOfWork
      change
        (targetBytes (targetSize block.target) _ >>= _) = none
      rw [targetBytes_eq_none (not_le.mp hSize)]
      rfl
    constructor
    · rintro ⟨hInside, -⟩
      exact absurd hOutside hInside
    · rintro ⟨hFits, -⟩
      exact absurd hFits hSize

/- A target whose last byte is behind the 32 bytes. -/
def outsideBlock : BRMerkleBlock UInt256 :=
  { new with target := 0x20000001 }

theorem outside_not_workExact : ¬ WorkExact outsideBlock := by
  rintro ⟨hInside, -⟩
  apply hInside
  decide +kernel

end BRMerkleBlock

end PlusWallet
