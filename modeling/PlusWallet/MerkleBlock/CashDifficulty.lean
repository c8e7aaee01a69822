import PlusWallet.Library.KeyedSet
import PlusWallet.Library.Faults
import PlusWallet.MerkleBlock.Retarget

/-
  `BRBCashVerifyDifficulty`, whose arithmetic of 64 bits is
  undefined for a shift by 64 or more.

  Blocks of a set are the same if they have the same hash.

  Main declarations:
    * `BRMerkleBlock.bcashVerifyDifficulty`
    * `BRMerkleBlock.daaTarget`
    * `BRMerkleBlock.DifficultyDefined`
    * `BRMerkleBlock.difficultyDefined_iff`
-/

namespace PlusWallet

namespace BRMerkleBlock

------------------------------------------------------------
-- Arithmetic
------------------------------------------------------------

/- What makes a run of the function undefined or endless. -/
inductive DifficultyFault where
  | shift
  | division
  | endless
deriving DecidableEq

/- `1ULL << amount` -/
def shiftOne (amount : Int) : Except DifficultyFault UInt64 :=
  if 0 ≤ amount ∧ amount < 64 then
    .ok (1 <<< UInt64.ofNat amount.toNat)
  else .error .shift

def divide
    (number divisor : UInt64) :
    Except DifficultyFault UInt64 :=
  if divisor = 0 then .error .division
  else .ok (number / divisor)

/- `while (((work + 1) >> size*8) != 0) size++` -/
def countBytes
    (work : UInt64) :
    Nat → Nat → Except DifficultyFault Nat
  | 0, _ => .error .endless
  | rounds + 1, size =>
      if 64 ≤ size * 8 then .error .shift
      else if (work + 1) >>> UInt64.ofNat (size * 8) ≠ 0 then
        countBytes work rounds (size + 1)
      else .ok size

------------------------------------------------------------
-- Blocks
------------------------------------------------------------

variable {Hash : Type} [DecidableEq Hash]

/- Blocks by their hash. -/
abbrev HeaderSet (Hash : Type) :=
  KeyedSet fun block : BRMerkleBlock Hash => block.blockHash

/- `BRSetGet` of the block before, `NULL` for `NULL`. -/
def before
    (blockSet : HeaderSet Hash)
    (b : Option (BRMerkleBlock Hash)) :
    Option (BRMerkleBlock Hash) :=
  b.bind fun block => blockSet.get block.prevBlock

/- Swap two blocks that are later one first. -/
def swapLater
    (b0 b1 : Option (BRMerkleBlock Hash)) :
    Option (BRMerkleBlock Hash) × Option (BRMerkleBlock Hash) :=
  match b0, b1 with
  | some first, some second =>
      if second.timestamp < first.timestamp then (b1, b0)
      else (b0, b1)
  | _, _ => (b0, b1)

/- `_medianBlock` -/
def medianBlock
    (blockSet : HeaderSet Hash)
    (b0 : Option (BRMerkleBlock Hash)) :
    Option (BRMerkleBlock Hash) :=
  let b1 := before blockSet b0
  let b2 := before blockSet b1
  let (b0, b2) := swapLater b0 b2
  let (b0, b1) := swapLater b0 b1
  let (b1, b2) := swapLater b1 b2
  if b0.isSome ∧ b1.isSome ∧ b2.isSome then b1 else none

/- So many blocks before one. -/
def goBack
    (blockSet : HeaderSet Hash) :
    Nat → Option (BRMerkleBlock Hash) →
      Option (BRMerkleBlock Hash)
  | 0, last => last
  | i + 1, last => goBack blockSet i (before blockSet last)

/-
  The loop from one block back to another that adds up the
  work.  A walk over more blocks than there are goes round.
-/
def sumWork
    (blockSet : HeaderSet Hash)
    (last : Option (BRMerkleBlock Hash)) :
    Nat → Option (BRMerkleBlock Hash) → UInt64 →
      Except DifficultyFault UInt64
  | 0, _, _ => .error .endless
  | rounds + 1, b, work =>
      if b.isNone ∨
          b.map (·.blockHash) = last.map (·.blockHash) then
        .ok work
      else do
        let b := before blockSet b
        let target := (b.map (·.target)).getD 0
        let size : Int := (target >>> 24).toNat
        let target := (target &&& 0x007fffff).toUInt64
        -- work += 2^256/(target + 1)
        let power ← shiftOne ((32 - size) * 8)
        sumWork blockSet last rounds b
          (work + (power - (target + 1)))

/- D601 hard fork height -/
def DAA_HEIGHT : Nat := 504032

/- The time between two blocks, within its limits. -/
def clampedTime
    (first last : Option (BRMerkleBlock Hash)) : UInt32 :=
  let time :=
    match first, last with
    | some first, some last => first.timestamp - last.timestamp
    | _, _ => 0
  let time := if 288 * 10 * 60 < time then 288 * 10 * 60 else time
  if time < 72 * 10 * 60 then 72 * 10 * 60 else time

/- `BRBCashVerifyDifficulty` -/
def bcashVerifyDifficulty
    (block : BRMerkleBlock Hash)
    (blockSet : HeaderSet Hash) : Except DifficultyFault Nat :=
  let r := 1
  if DAA_HEIGHT ≤ block.height then do
    let first :=
      medianBlock blockSet (before blockSet (some block))
    let last :=
      medianBlock blockSet (goBack blockSet 144 (some block))
    let time := clampedTime first last
    let work ←
      sumWork blockSet last (blockSet.records.length + 1) first 0
    -- work = work*10*60/time
    let work ← divide (work * 10 * 60) time.toUInt64
    -- target = (2^256/work) - 1
    let size ← countBytes work 9 0
    let power ← shiftOne ((32 - (size : Int)) * 8)
    let target := power - (work + 1)
    let target := target ||| UInt64.ofNat ((32 - size) * 2 ^ 24)
    -- max proof-of-work
    let target :=
      if 0x1d00ffff < target then 0x1d00ffff else target
    .ok
      (if first.isSome ∧ last.isSome ∧
          block.target.toUInt64 ≠ target
        then 1 else r)
  else .ok r

------------------------------------------------------------
-- The Algorithm
------------------------------------------------------------

/- The blocks before one, the nearest first. -/
def ancestorsOf
    (blockSet : HeaderSet Hash) :
    Nat → BRMerkleBlock Hash → List (BRMerkleBlock Hash)
  | 0, _ => []
  | count + 1, block =>
      match blockSet.get block.prevBlock with
      | none => []
      | some previous =>
          previous :: ancestorsOf blockSet count previous

/-
  The target that the algorithm of the hard fork gives for a
  block with enough ancestors: the work of a day of blocks at
  the time that it took, as a target of ten minutes a block.
-/
def daaTarget
    (block : BRMerkleBlock Hash)
    (blockSet : HeaderSet Hash) : Option Nat := do
  guard (DAA_HEIGHT ≤ block.height)
  let first ←
    medianBlock blockSet (before blockSet (some block))
  let last ←
    medianBlock blockSet (goBack blockSet 144 (some block))
  let day :=
    (ancestorsOf blockSet 146 block).dropWhile
      fun b => decide (b.blockHash ≠ first.blockHash)
  let day :=
    day.takeWhile fun b => decide (b.blockHash ≠ last.blockHash)
  let work :=
    (day.map fun b => 2 ^ 256 / (expandTarget b.target + 1)).sum
  let timespan : Int :=
    first.timestamp.toNat - (last.timestamp.toNat : Int)
  let timespan :=
    max (72 * 10 * 60) (min (288 * 10 * 60) timespan)
  let work := work * 10 * 60 / timespan.toNat
  let target := (2 ^ 256 - work) / work
  some
    (compactTargetOf (min (expandTarget 0x1d00ffff) target))

/-
  The check ends without a shift by 64 or more and without a
  division by zero, and rejects every target but the one that
  the algorithm gives.
-/
def DifficultyDefined
    (block : BRMerkleBlock Hash)
    (blockSet : HeaderSet Hash) : Prop :=
  ∃ r,
    bcashVerifyDifficulty block blockSet = .ok r ∧
      ∀ target,
        daaTarget block blockSet = some target →
          block.target.toNat ≠ target → r = 0

------------------------------------------------------------
-- The Last Shift
------------------------------------------------------------

/- The work of 64 bits has at most eight bytes. -/
theorem countBytes_le
    {work : UInt64}
    {rounds size count : Nat}
    (hCount : countBytes work rounds size = .ok count) :
    count ≤ 8 := by
  induction rounds generalizing size with
  | zero => cases hCount
  | succ rounds ih =>
      unfold countBytes at hCount
      split at hCount
      · cases hCount
      · split at hCount
        · apply ih hCount
        · cases hCount
          omega

/-
  The target is 2^256 over the work, so that its shift is by
  more than 24 bytes.
-/
theorem shiftOne_of_le
    {count : Nat}
    (hCount : count ≤ 8) :
    shiftOne ((32 - (count : Int)) * 8) = .error .shift := by
  unfold shiftOne
  rw [if_neg]
  rintro ⟨-, hLt⟩
  omega

theorem bcashVerifyDifficulty_of_lt
    {block : BRMerkleBlock Hash}
    {blockSet : HeaderSet Hash}
    (hHeight : block.height < DAA_HEIGHT) :
    bcashVerifyDifficulty block blockSet = .ok 1 := by
  unfold bcashVerifyDifficulty
  exact if_neg (Nat.not_le.mpr hHeight)

/- From the hard fork on, no run of the check is defined. -/
theorem bcashVerifyDifficulty_ne_ok
    {block : BRMerkleBlock Hash}
    {blockSet : HeaderSet Hash}
    (hHeight : DAA_HEIGHT ≤ block.height)
    (r : Nat) :
    bcashVerifyDifficulty block blockSet ≠ .ok r := by
  intro hOk
  unfold bcashVerifyDifficulty at hOk
  dsimp only at hOk
  rw [if_pos hHeight] at hOk
  rcases Faults.bind_eq_ok_iff.mp hOk with ⟨sum, -, hOk⟩
  rcases Faults.bind_eq_ok_iff.mp hOk with ⟨work, -, hOk⟩
  rcases Faults.bind_eq_ok_iff.mp hOk with ⟨size, hSize, hOk⟩
  rcases Faults.bind_eq_ok_iff.mp hOk with ⟨power, hPower, -⟩
  rw [shiftOne_of_le (countBytes_le hSize)] at hPower
  cases hPower

/- A run that ends accepts the block, whatever its target. -/
theorem bcashVerifyDifficulty_eq_one
    {block : BRMerkleBlock Hash}
    {blockSet : HeaderSet Hash}
    {r : Nat}
    (hOk : bcashVerifyDifficulty block blockSet = .ok r) :
    r = 1 := by
  by_cases hHeight : DAA_HEIGHT ≤ block.height
  · exact absurd hOk (bcashVerifyDifficulty_ne_ok hHeight r)
  · rw [bcashVerifyDifficulty_of_lt (Nat.not_le.mp hHeight)]
      at hOk
    cases hOk
    rfl

theorem daaTarget_of_lt
    {block : BRMerkleBlock Hash}
    {blockSet : HeaderSet Hash}
    (hHeight : block.height < DAA_HEIGHT) :
    daaTarget block blockSet = none := by
  unfold daaTarget
  simp [guard, Nat.not_le.mpr hHeight]

/-
  The check is defined, and rejects what it has to, before the
  hard fork and not after.
-/
theorem difficultyDefined_iff
    (block : BRMerkleBlock Hash)
    (blockSet : HeaderSet Hash) :
    DifficultyDefined block blockSet ↔
      block.height < DAA_HEIGHT := by
  constructor
  · rintro ⟨r, hOk, -⟩
    by_contra hHeight
    exact bcashVerifyDifficulty_ne_ok
      (Nat.not_lt.mp hHeight) r hOk
  · intro hHeight
    refine ⟨1, bcashVerifyDifficulty_of_lt hHeight, ?_⟩
    intro target hTarget
    rw [daaTarget_of_lt hHeight] at hTarget
    cases hTarget

------------------------------------------------------------
-- A Chain
------------------------------------------------------------

/- A header of the easiest target, ten minutes after the last. -/
def dayBlock (height : Nat) : BRMerkleBlock Nat where
  blockHash := height
  version := 1
  prevBlock := height - 1
  merkleRoot := 0
  timestamp := UInt32.ofNat (1200000000 + height * 600)
  target := 0x1d00ffff
  nonce := 0
  totalTx := 0
  hashes := []
  hashesCount := 0
  flags := []
  flagsLen := 0
  height := height

/- The headers below the hard fork. -/
def daySet : HeaderSet Nat :=
  ((List.range 147).map fun i => dayBlock (504031 - i)).foldl
    KeyedSet.add KeyedSet.empty

/-
  The block of the hard fork itself, over as many headers as
  the algorithm needs.
-/
theorem dayBlock_undefined :
    (ancestorsOf daySet 147 (dayBlock 504032)).length = 147 ∧
      (∀ b ∈ ancestorsOf daySet 147 (dayBlock 504032),
        b.target = 0x1d00ffff) ∧
      ¬ DifficultyDefined (dayBlock 504032) daySet := by
  refine ⟨by decide +kernel, by decide +kernel, ?_⟩
  rintro ⟨r, hOk, -⟩
  have hError :
      bcashVerifyDifficulty (dayBlock 504032) daySet =
        .error .shift := by
    decide +kernel
  rw [hError] at hOk
  cases hOk

end BRMerkleBlock

end PlusWallet
