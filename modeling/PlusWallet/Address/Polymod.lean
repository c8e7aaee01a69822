import PlusWallet.Address.BRBech32

/-
  The checksum of bech32: it is linear, and behind any groups
  there is one choice of six more that brings it to 1.

  Main declarations:
    * `polymod_xor`, `feed_xor`
    * `feed_checkGroups`, `eq_checkGroups`
-/

namespace PlusWallet

namespace BRBech32

open Positional

------------------------------------------------------------
-- Linearity
------------------------------------------------------------

theorem xor_and
    (x y mask : UInt32) :
    (x ^^^ y) &&& mask = (x &&& mask) ^^^ (y &&& mask) := by
  apply UInt32.toNat_inj.mp
  simp only [UInt32.toNat_and, UInt32.toNat_xor]
  exact Nat.and_xor_distrib_right

theorem and_one_cases
    (x : UInt32) :
    x &&& 1 = 0 ∨ x &&& 1 = 1 := by
  have hNat : (x &&& 1).toNat = x.toNat % 2 := by
    rw [UInt32.toNat_and]
    exact Nat.and_one_is_mod _
  rcases Nat.mod_two_eq_zero_or_one x.toNat with hBit | hBit
  · left
    apply UInt32.toNat_inj.mp
    rw [hNat, hBit]
    rfl
  · right
    apply UInt32.toNat_inj.mp
    rw [hNat, hBit]
    rfl

theorem polymodTerm_xor
    (x y n mask : UInt32) :
    polymodTerm (x ^^^ y) n mask =
      polymodTerm x n mask ^^^ polymodTerm y n mask := by
  have hSplit :
      ((x ^^^ y) >>> n) &&& 1 =
        ((x >>> n) &&& 1) ^^^ ((y >>> n) &&& 1) := by
    rw [UInt32.shiftRight_xor, xor_and]
  rw [polymodTerm, polymodTerm, polymodTerm, hSplit]
  rcases and_one_cases (x >>> n) with hX | hX <;>
    rcases and_one_cases (y >>> n) with hY | hY <;>
    rw [hX, hY] <;>
    simp

theorem polymod_xor
    (x y : UInt32) :
    polymod (x ^^^ y) = polymod x ^^^ polymod y := by
  have hShift :
      ((x ^^^ y) &&& (0x1ffffff : UInt32)) <<< (5 : UInt32) =
        ((x &&& 0x1ffffff) <<< (5 : UInt32)) ^^^
          ((y &&& 0x1ffffff) <<< (5 : UInt32)) := by
    rw [← UInt32.shiftLeft_xor, xor_and]
  simp only [polymod, hShift, polymodTerm_xor]
  ac_rfl

/- The checksum over no groups but zeros in their number. -/
def feedZeros (chk : UInt32) (groups : List UInt8) : UInt32 :=
  feed chk (List.replicate groups.length 0)

theorem feed_cons
    (chk : UInt32)
    (group : UInt8)
    (groups : List UInt8) :
    feed chk (group :: groups) =
      feed (polymod chk ^^^ group.toUInt32) groups := rfl

theorem feed_append
    (chk : UInt32)
    (groups other : List UInt8) :
    feed chk (groups ++ other) =
      feed (feed chk groups) other := by
  rw [feed, List.foldl_append]
  rfl

theorem feed_xor
    (chk other : UInt32)
    (groups : List UInt8) :
    feed (chk ^^^ other) groups =
      feedZeros chk groups ^^^ feed other groups := by
  induction groups generalizing chk other with
  | nil => rfl
  | cons group groups ih =>
      have hZeros :
          feedZeros chk (group :: groups) =
            feedZeros (polymod chk) groups := by
        rw [feedZeros, List.length_cons, List.replicate_succ,
          feed_cons, feedZeros]
        simp
      rw [feed_cons, polymod_xor, UInt32.xor_assoc, ih,
        hZeros, feed_cons]

/- What groups add does not depend on what was before. -/
theorem feed_eq
    (chk : UInt32)
    (groups : List UInt8) :
    feed chk groups =
      feedZeros chk groups ^^^ feed 0 groups := by
  have hXor := feed_xor chk 0 groups
  rwa [UInt32.xor_zero] at hXor

------------------------------------------------------------
-- Few Groups
------------------------------------------------------------

theorem polymodTerm_of_small
    {x : UInt32}
    {n : UInt32}
    (hN : 25 ≤ n.toNat ∧ n.toNat < 32)
    (hSmall : x.toNat < 2 ^ 25)
    (mask : UInt32) :
    polymodTerm x n mask = 0 := by
  have hZero : x >>> n = 0 := by
    apply UInt32.toNat_inj.mp
    rw [UInt32.toNat_shiftRight, Nat.mod_eq_of_lt hN.2,
      Nat.shiftRight_eq_div_pow]
    apply Nat.div_eq_of_lt
    exact lt_of_lt_of_le hSmall
      (Nat.pow_le_pow_right (by decide) hN.1)
  rw [polymodTerm, hZero]
  simp

theorem polymod_of_small
    {x : UInt32}
    (hSmall : x.toNat < 2 ^ 25) :
    (polymod x).toNat = x.toNat * 32 := by
  have hTerms : ∀ n mask : UInt32,
      25 ≤ n.toNat ∧ n.toNat < 32 →
        polymodTerm x n mask = 0 :=
    fun n mask hN => polymodTerm_of_small hN hSmall mask
  rw [polymod, hTerms _ _ (by decide), hTerms _ _ (by decide),
    hTerms _ _ (by decide), hTerms _ _ (by decide),
    hTerms _ _ (by decide)]
  have hMask : (0x1ffffff : UInt32).toNat = 2 ^ 25 - 1 := rfl
  have hFive : (5 : UInt32).toNat % 32 = 5 := rfl
  simp only [UInt32.xor_zero, UInt32.toNat_shiftLeft,
    UInt32.toNat_and]
  rw [hMask, hFive, Nat.and_two_pow_sub_one_eq_mod,
    Nat.mod_eq_of_lt hSmall, Nat.shiftLeft_eq,
    Nat.mod_eq_of_lt (by omega)]

/- A group behind a number of groups is added to it. -/
theorem mul_xor_group
    {group : Nat}
    (hGroup : group < 32)
    (number : Nat) :
    number * 32 ^^^ group = number * 32 + group := by
  have hDiv : (number * 32 ^^^ group) / 2 ^ 5 = number := by
    rw [Nat.xor_div_two_pow, Nat.mul_div_cancel _ (by decide),
      Nat.div_eq_of_lt hGroup, Nat.xor_zero]
  have hMod : (number * 32 ^^^ group) % 2 ^ 5 = group := by
    rw [Nat.xor_mod_two_pow, Nat.mul_mod_left,
      Nat.mod_eq_of_lt hGroup, Nat.zero_xor]
  omega

/- Up to six groups are the number that they stand for. -/
theorem feed_zero
    {groups : List UInt8}
    (hFew : groups.length ≤ 6)
    (hGroups : ∀ group ∈ groups, group.toNat < 32) :
    (feed 0 groups).toNat =
      value 32 (groups.map UInt8.toNat) := by
  induction groups using List.reverseRecOn with
  | nil => rfl
  | append_singleton groups group ih =>
      rw [List.length_append, List.length_singleton] at hFew
      have hFront : ∀ group ∈ groups, group.toNat < 32 :=
        fun other hOther =>
          hGroups other (List.mem_append_left _ hOther)
      have hLast : group.toNat < 32 :=
        hGroups group (by simp)
      have hValue := ih (by omega) hFront
      have hLt :
          value 32 (groups.map UInt8.toNat) <
            32 ^ groups.length := by
        have hBound :=
          value_lt (by decide : 1 < 32)
            (fun digit (hDigit :
                digit ∈ groups.map UInt8.toNat) => by
              rcases List.mem_map.mp hDigit with
                ⟨other, hOther, rfl⟩
              exact hFront other hOther)
        rwa [List.length_map] at hBound
      have hSmall : (feed 0 groups).toNat < 2 ^ 25 := by
        rw [hValue]
        refine lt_of_lt_of_le hLt ?_
        exact le_trans
          (Nat.pow_le_pow_right (by decide)
            (by omega : groups.length ≤ 5))
          (by decide)
      rw [feed_append, List.map_append, List.map_singleton,
        value_append_singleton, ← hValue, feed_cons]
      simp only [feed, List.foldl_nil, UInt32.toNat_xor,
        UInt8.toNat_toUInt32]
      rw [← feed, polymod_of_small hSmall,
        mul_xor_group hLast]

------------------------------------------------------------
-- The Groups of the Checksum
------------------------------------------------------------

theorem polymod_lt (x : UInt32) : (polymod x).toNat < 2 ^ 30 := by
  have hTerm : ∀ n mask : UInt32, mask.toNat < 2 ^ 30 →
      (polymodTerm x n mask).toNat < 2 ^ 30 := by
    intro n mask hMask
    rw [polymodTerm, UInt32.toNat_and]
    exact Nat.and_lt_two_pow _ hMask
  have hShift :
      ((x &&& (0x1ffffff : UInt32)) <<< (5 : UInt32)).toNat <
        2 ^ 30 := by
    have hMask : (0x1ffffff : UInt32).toNat = 2 ^ 25 - 1 := rfl
    have hFive : (5 : UInt32).toNat % 32 = 5 := rfl
    have hLow := Nat.mod_lt x.toNat (by decide : 0 < 2 ^ 25)
    rw [UInt32.toNat_shiftLeft, UInt32.toNat_and, hMask, hFive,
      Nat.and_two_pow_sub_one_eq_mod, Nat.shiftLeft_eq]
    omega
  simp only [polymod, UInt32.toNat_xor]
  refine Nat.xor_lt_two_pow (Nat.xor_lt_two_pow
    (Nat.xor_lt_two_pow (Nat.xor_lt_two_pow
      (Nat.xor_lt_two_pow hShift ?_) ?_) ?_) ?_) ?_ <;>
    exact hTerm _ _ (by decide)

/- The number that the groups of the checksum stand for. -/
def checkNumber (chk : UInt32) : UInt32 :=
  feed chk (List.replicate 6 0) ^^^ 1

theorem checkNumber_lt
    (chk : UInt32) :
    (checkNumber chk).toNat < 2 ^ 30 := by
  rw [checkNumber, UInt32.toNat_xor]
  refine Nat.xor_lt_two_pow ?_ (by decide)
  simp only [feed, List.replicate_succ, List.foldl_cons,
    List.replicate_zero, List.foldl_nil, UInt32.toNat_xor]
  exact Nat.xor_lt_two_pow (polymod_lt _) (by decide)

@[simp]
theorem length_checkGroups
    (chk : UInt32) :
    (checkGroups chk).length = 6 := by
  simp [checkGroups]

/- The group of some bits of a number. -/
theorem toNat_checkGroup
    (number : UInt32)
    {shift : Nat}
    (hShift : shift < 32) :
    ((number >>> UInt32.ofNat shift) &&& 0x1f).toUInt8.toNat =
      number.toNat / 2 ^ shift % 32 := by
  have hMask : (0x1f : UInt32).toNat = 2 ^ 5 - 1 := rfl
  have hNat : (UInt32.ofNat shift).toNat % 32 = shift := by
    rw [UInt32.toNat_ofNat']
    omega
  rw [UInt32.toNat_toUInt8, UInt32.toNat_and, hMask,
    Nat.and_two_pow_sub_one_eq_mod, UInt32.toNat_shiftRight,
    hNat, Nat.shiftRight_eq_div_pow]
  omega

theorem map_checkGroups
    (chk : UInt32) :
    (checkGroups chk).map UInt8.toNat =
      (List.range 6).map fun j =>
        (checkNumber chk).toNat / 2 ^ ((5 - j) * 5) % 32 := by
  rw [checkGroups, List.map_map]
  apply List.map_congr_left
  intro j hJ
  rw [List.mem_range] at hJ
  exact toNat_checkGroup _ (by omega)

theorem lt_of_mem_checkGroups
    {chk : UInt32} :
    ∀ group ∈ checkGroups chk, group.toNat < 32 := by
  intro group hGroup
  have hMem := List.mem_map_of_mem (f := UInt8.toNat) hGroup
  rw [map_checkGroups] at hMem
  rcases List.mem_map.mp hMem with ⟨j, -, hEq⟩
  rw [← hEq]
  exact Nat.mod_lt _ (by decide)

theorem value_checkGroups
    (chk : UInt32) :
    value 32 ((checkGroups chk).map UInt8.toNat) =
      (checkNumber chk).toNat := by
  have hLt := checkNumber_lt chk
  rw [map_checkGroups]
  simp only [List.range, List.range.loop, List.map_cons,
    List.map_nil, value_cons, value_nil, List.length_cons,
    List.length_nil]
  omega

/- The groups of the checksum bring it to 1. -/
theorem feed_checkGroups
    (chk : UInt32) :
    feed chk (checkGroups chk) = 1 := by
  have hNumber : feed 0 (checkGroups chk) = checkNumber chk := by
    apply UInt32.toNat_inj.mp
    rw [feed_zero (by simp) lt_of_mem_checkGroups,
      value_checkGroups]
  rw [feed_eq, feedZeros, length_checkGroups, hNumber,
    checkNumber, ← UInt32.xor_assoc, UInt32.xor_self,
    UInt32.zero_xor]

/- No other six groups do. -/
theorem eq_checkGroups
    {chk : UInt32}
    {groups : List UInt8}
    (hSix : groups.length = 6)
    (hGroups : ∀ group ∈ groups, group.toNat < 32)
    (hFeed : feed chk groups = 1) :
    groups = checkGroups chk := by
  rw [feed_eq, feedZeros, hSix] at hFeed
  have hNumber : feed 0 groups = checkNumber chk := by
    rw [checkNumber, ← hFeed, ← UInt32.xor_assoc,
      UInt32.xor_self, UInt32.zero_xor]
  have hValue := congrArg UInt32.toNat hNumber
  rw [feed_zero (by omega) hGroups, ← value_checkGroups]
    at hValue
  have hMap :=
    eq_of_value_eq (by decide) (by simp [hSix])
      (by simpa using hGroups)
      (by simpa using lt_of_mem_checkGroups) hValue
  exact List.map_injective_iff.mpr
    (fun byte other hEq => UInt8.toNat_inj.mp hEq) hMap

end BRBech32

end PlusWallet
