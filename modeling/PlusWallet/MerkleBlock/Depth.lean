import PlusWallet.MerkleBlock.Block

/-
  The depth of the merkle tree as `_ceil_log2` computes it.

  Main declarations:
    * `ceilLog2_eq_clog`
    * `ceilLog2_eq_none`
-/

namespace PlusWallet

------------------------------------------------------------
-- Counts below `2 ^ 31`
------------------------------------------------------------

theorem toNat_sshiftRight_one
    {x : BitVec 32}
    (hx : x.toNat < 2 ^ 31) :
    (x.sshiftRight 1).toNat = x.toNat / 2 := by
  have hMsb : x.msb = false := by
    rw [BitVec.msb_eq_decide]
    simp
    omega
  rw [BitVec.toNat_sshiftRight_of_msb_false hMsb,
    Nat.shiftRight_eq_div_pow, pow_one]

/- On a non-negative `int` the loop adds the binary logarithm. -/
theorem ceilLog2Loop_eq_log
    {rounds r : Nat}
    {x : BitVec 32}
    (hx : x.toNat < 2 ^ 31)
    (hRounds : Nat.log 2 x.toNat < rounds) :
    ceilLog2Loop rounds x r =
      some (r + Nat.log 2 x.toNat) := by
  induction rounds generalizing x r with
  | zero => omega
  | succ rounds ih =>
      have hHalf := toNat_sshiftRight_one hx
      rw [ceilLog2Loop]
      by_cases hZero : x.sshiftRight 1 = 0
      · have hSmall : x.toNat / 2 = 0 := by
          rw [← hHalf, hZero]
          rfl
        have hLog : Nat.log 2 x.toNat = 0 :=
          Nat.log_of_lt (by omega)
        simp [hZero, hLog]
      · have hLarge : 2 ≤ x.toNat := by
          by_contra hSmall
          apply hZero
          apply BitVec.eq_of_toNat_eq
          rw [hHalf]
          simp
          omega
        have hLog :
            Nat.log 2 x.toNat =
              Nat.log 2 (x.toNat / 2) + 1 :=
          Nat.log_of_one_lt_of_le (by omega) hLarge
        simp only [ne_eq, hZero, not_false_eq_true,
          if_true]
        rw [ih (by omega) (by rw [hHalf]; omega), hHalf,
          hLog]
        congr 1
        omega

/- The binary logarithm rounded up, by a test for a power of two. -/
theorem clog_two_eq
    (n : Nat) :
    Nat.clog 2 n =
      Nat.log 2 n + if n &&& (n - 1) ≠ 0 then 1 else 0 := by
  by_cases hZero : n = 0
  · subst hZero
    rfl
  have hAnd := Nat.and_sub_one_eq_zero_iff_isPowerOfTwo hZero
  by_cases hPower : n.isPowerOfTwo
  · rcases hPower with ⟨k, rfl⟩
    have hTest := hAnd.mpr ⟨k, rfl⟩
    simp [hTest]
  · have hTest := mt hAnd.mp hPower
    simp only [ne_eq, hTest, not_false_eq_true, if_true]
    apply le_antisymm
    · exact
        Nat.clog_le_of_le_pow
          (Nat.lt_pow_succ_log_self (by omega) n).le
    · have hBelow : 2 ^ Nat.log 2 n < n :=
        lt_of_le_of_ne (Nat.pow_log_le_self 2 hZero)
          (fun hEqual => hPower ⟨_, hEqual.symm⟩)
      exact (Nat.lt_clog_iff_pow_lt (by omega)).mpr hBelow

private theorem and_sub_one_ne_zero_iff
    (x : BitVec 32) :
    x &&& (x - 1) ≠ 0 ↔
      x.toNat &&& (x.toNat - 1) ≠ 0 := by
  by_cases hZero : x = 0
  · subst hZero
    simp
  · have hPositive : 1 ≤ x.toNat := by
      by_contra hNone
      apply hZero
      apply BitVec.eq_of_toNat_eq
      simp
      omega
    have hSub : (x - 1).toNat = x.toNat - 1 := by
      have hBound := x.isLt
      rw [BitVec.toNat_sub]
      simp
      omega
    rw [ne_eq, ne_eq, ← BitVec.toNat_inj,
      BitVec.toNat_and, hSub]
    simp

/- Below `2 ^ 31` the depth is the least sufficient one. -/
theorem ceilLog2_eq_clog
    {x : BitVec 32}
    (hx : x.toNat < 2 ^ 31) :
    ceilLog2 x = some (Nat.clog 2 x.toNat) := by
  have hRounds : Nat.log 2 x.toNat < 32 := by
    by_cases hZero : x.toNat = 0
    · simp [hZero]
    · exact Nat.log_lt_of_lt_pow hZero (by omega)
  rw [ceilLog2, ceilLog2Loop_eq_log hx hRounds, clog_two_eq,
    add_comm]
  simp only [and_sub_one_ne_zero_iff]

/- The least depth of a count of a positive `int` is at most 31. -/
theorem clog_two_le
    {n : Nat}
    (hn : n < 2 ^ 31) :
    Nat.clog 2 n ≤ 31 :=
  Nat.clog_le_of_le_pow hn.le

------------------------------------------------------------
-- Counts from `2 ^ 31` on
------------------------------------------------------------

/- A negative `int` stays negative under the shift. -/
theorem ceilLog2Loop_eq_none
    (rounds r : Nat)
    {x : BitVec 32}
    (hx : x.msb = true) :
    ceilLog2Loop rounds x r = none := by
  induction rounds generalizing x r with
  | zero => rfl
  | succ rounds ih =>
      have hNext : (x.sshiftRight 1).msb = true := by
        rw [BitVec.msb_sshiftRight, hx]
      have hNe : x.sshiftRight 1 ≠ 0 := by
        intro hZero
        rw [hZero] at hNext
        simp at hNext
      rw [ceilLog2Loop]
      simp only [hNe, ne_eq, not_false_eq_true, if_true]
      exact ih (r + 1) hNext

/- From `2 ^ 31` on the loop does not end. -/
theorem ceilLog2_eq_none
    {x : BitVec 32}
    (hx : 2 ^ 31 ≤ x.toNat) :
    ceilLog2 x = none := by
  apply ceilLog2Loop_eq_none
  rw [BitVec.msb_eq_decide]
  simpa using hx

end PlusWallet
