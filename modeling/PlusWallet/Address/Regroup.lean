import PlusWallet.Library.Bits
import PlusWallet.Address.BRBech32

/-
  The regrouping of bytes and groups of five bits: both loops
  keep the string of bits.

  Main declarations:
    * `putGroups`, `bit_putGroups`
    * `length_groupsFrom`, `bit_groupsFrom`
-/

namespace PlusWallet

namespace BRBech32

open Bits

------------------------------------------------------------
-- Bits of a Byte
------------------------------------------------------------

theorem toNat_ofNat_of_small
    {n : Nat}
    (hSmall : n < 8) :
    (UInt8.ofNat n).toNat % 8 = n := by
  rw [UInt8.toNat_ofNat']
  omega

theorem testBit_shiftLeft
    (byte : UInt8)
    {n b : Nat}
    (hSmall : n < 8)
    (hBit : b < 8) :
    (byte <<< UInt8.ofNat n).toNat.testBit b =
      (decide (n ≤ b) && byte.toNat.testBit (b - n)) := by
  rw [UInt8.toNat_shiftLeft, toNat_ofNat_of_small hSmall,
    Nat.testBit_mod_two_pow, Nat.testBit_shiftLeft,
    decide_eq_true hBit, Bool.true_and]

theorem testBit_shiftRight
    (byte : UInt8)
    {n : Nat}
    (hSmall : n < 8)
    (b : Nat) :
    (byte >>> UInt8.ofNat n).toNat.testBit b =
      byte.toNat.testBit (n + b) := by
  rw [UInt8.toNat_shiftRight, toNat_ofNat_of_small hSmall,
    Nat.testBit_shiftRight]

theorem testBit_of_lt
    {byte : UInt8}
    {width b : Nat}
    (hByte : byte.toNat < 2 ^ width)
    (hBit : width ≤ b) :
    byte.toNat.testBit b = false :=
  Nat.testBit_lt_two_pow
    (lt_of_lt_of_le hByte
      (Nat.pow_le_pow_right (by decide) hBit))

------------------------------------------------------------
-- From Groups to Bytes
------------------------------------------------------------

theorem getD_modify
    (buf : List UInt8)
    (pos q : Nat)
    (change : UInt8 → UInt8)
    (hPos : pos < buf.length) :
    (buf.modify pos change).getD q 0 =
      if q = pos then change (buf.getD q 0)
      else buf.getD q 0 := by
  rw [List.getD, List.getElem?_modify]
  by_cases hEq : pos = q
  · subst hEq
    simp [List.getElem?_eq_getElem hPos]
  · rw [if_neg (Ne.symm hEq)]
    simp [hEq]

@[simp]
theorem length_putGroup
    (buf : List UInt8)
    (j : Nat)
    (c : UInt8) :
    (putGroup buf j c).length = buf.length := by
  simp only [putGroup]
  split_ifs <;> simp

/- The part of a group in the byte where it begins. -/
def firstPart (x : Nat) (c : UInt8) : UInt8 :=
  (c <<< 3) >>> UInt8.ofNat x

/- The part of a group in the byte behind that. -/
def secondPart (x : Nat) (c : UInt8) : UInt8 :=
  c <<< UInt8.ofNat (11 - x)

theorem testBit_firstPart
    (c : UInt8)
    {x r : Nat}
    (hX : x < 8)
    (hR : r < 8) :
    (firstPart x c).toNat.testBit (7 - r) =
      (decide (x ≤ r) && decide (r < x + 5) &&
        c.toNat.testBit (4 + x - r)) := by
  rw [firstPart, testBit_shiftRight _ hX]
  have hThree : (3 : UInt8) = UInt8.ofNat 3 := rfl
  rcases Nat.lt_or_ge r x with hLow | hLow
  · have hHigh :
        (c <<< (3 : UInt8)).toNat.testBit (x + (7 - r)) =
          false := by
      apply testBit_of_lt (UInt8.toNat_lt _)
      omega
    rw [hHigh, decide_eq_false (by omega : ¬ x ≤ r)]
    rfl
  · rw [hThree, testBit_shiftLeft _ (by decide) (by omega),
      decide_eq_true hLow, Bool.true_and]
    by_cases hEnd : r < x + 5
    · rw [decide_eq_true (by omega : 3 ≤ x + (7 - r)),
        decide_eq_true hEnd]
      congr 2
      omega
    · rw [decide_eq_false (by omega : ¬ 3 ≤ x + (7 - r)),
        decide_eq_false hEnd]
      rfl

theorem testBit_secondPart
    (c : UInt8)
    {x r : Nat}
    (hThree : 3 < x)
    (hX : x < 8)
    (hR : r < 8) :
    (secondPart x c).toNat.testBit (7 - r) =
      (decide (r + 8 < x + 5) &&
        c.toNat.testBit (x - 4 - r)) := by
  rw [secondPart, testBit_shiftLeft _ (by omega) (by omega)]
  by_cases hEnd : r + 8 < x + 5
  · rw [decide_eq_true (by omega : 11 - x ≤ 7 - r),
      decide_eq_true hEnd]
    congr 2
    omega
  · rw [decide_eq_false (by omega : ¬ 11 - x ≤ 7 - r),
      decide_eq_false hEnd]
    rfl

/- The bytes of the buffer with a group in its place. -/
theorem getD_putGroup
    {buf : List UInt8}
    {j : Nat}
    (hRoom : 5 * j + 5 ≤ 8 * buf.length)
    (c : UInt8)
    (q : Nat) :
    (putGroup buf j c).getD q 0 =
      if q = 5 * j / 8 then
        buf.getD q 0 ||| firstPart (5 * j % 8) c
      else if 3 < 5 * j % 8 ∧ q = 5 * j / 8 + 1 then
        buf.getD q 0 ||| secondPart (5 * j % 8) c
      else buf.getD q 0 := by
  have hX :
      (j % 8) * 5 - ((j % 8) * 5 / 8) * 8 = 5 * j % 8 := by
    omega
  have hPos :
      (j / 8) * 5 + (j % 8) * 5 / 8 = 5 * j / 8 := by
    omega
  have hInner : 5 * j / 8 < buf.length := by omega
  simp only [putGroup, hX, hPos]
  by_cases hThree : 3 < 5 * j % 8
  · have hOuter : 5 * j / 8 + 1 < buf.length := by omega
    rw [if_pos hThree, getD_modify _ _ _ _ (by
        rwa [List.length_modify]),
      getD_modify _ _ _ _ hInner]
    by_cases hAt : q = 5 * j / 8
    · rw [if_pos hAt, if_pos hAt, if_neg (by omega)]
      rfl
    · rw [if_neg hAt, if_neg hAt]
      simp [hThree, secondPart]
  · rw [if_neg hThree, getD_modify _ _ _ _ hInner]
    simp [hThree, firstPart]

/- A group adds its bits to those of the buffer. -/
theorem bit_putGroup
    {buf : List UInt8}
    {j : Nat}
    (hRoom : 5 * j + 5 ≤ 8 * buf.length)
    (c : UInt8)
    (k : Nat) :
    bit 8 (putGroup buf j c) k =
      (bit 8 buf k ||
        (decide (5 * j ≤ k) && bit 5 [c] (k - 5 * j))) := by
  have hR : k % 8 < 8 := Nat.mod_lt _ (by decide)
  have hIndex : 8 - 1 - k % 8 = 7 - k % 8 := rfl
  rw [bit_cons (by decide), bit_nil, bit,
    getD_putGroup hRoom, hIndex]
  by_cases hAt : k / 8 = 5 * j / 8
  · rw [if_pos hAt, UInt8.toNat_or, Nat.testBit_or,
      testBit_firstPart c (Nat.mod_lt _ (by decide)) hR, bit]
    congr 1
    by_cases hLow : 5 * j % 8 ≤ k % 8
    · by_cases hEnd : k % 8 < 5 * j % 8 + 5
      · rw [decide_eq_true hLow, decide_eq_true hEnd,
          decide_eq_true (by omega : 5 * j ≤ k),
          if_pos (by omega)]
        simp only [Bool.true_and]
        congr 1
        omega
      · rw [decide_eq_false hEnd, if_neg (by omega)]
        simp
    · rw [decide_eq_false hLow,
        decide_eq_false (by omega : ¬ 5 * j ≤ k)]
      simp
  · rw [if_neg hAt]
    by_cases hNext :
        3 < 5 * j % 8 ∧ k / 8 = 5 * j / 8 + 1
    · rw [if_pos hNext, UInt8.toNat_or, Nat.testBit_or,
        testBit_secondPart c hNext.1
          (Nat.mod_lt _ (by decide)) hR, bit]
      congr 1
      rw [decide_eq_true (by omega : 5 * j ≤ k),
        Bool.true_and]
      by_cases hEnd : k % 8 + 8 < 5 * j % 8 + 5
      · rw [decide_eq_true hEnd, if_pos (by omega),
          Bool.true_and]
        congr 1
        omega
      · rw [decide_eq_false hEnd, if_neg (by omega),
          Bool.false_and]
    · rw [if_neg hNext, bit]
      by_cases hBelow : 5 * j ≤ k
      · rw [if_neg (by omega), Bool.and_false, Bool.or_false]
      · rw [decide_eq_false hBelow, Bool.false_and,
          Bool.or_false]

/- Groups put into their places from the group `j` on. -/
def putGroups (buf : List UInt8) : Nat → List UInt8 → List UInt8
  | _, [] => buf
  | j, c :: groups => putGroups (putGroup buf j c) (j + 1) groups

@[simp]
theorem length_putGroups
    (buf : List UInt8)
    (j : Nat)
    (groups : List UInt8) :
    (putGroups buf j groups).length = buf.length := by
  induction groups generalizing buf j with
  | nil => rfl
  | cons c groups ih => rw [putGroups, ih, length_putGroup]

theorem bit_putGroups
    {buf : List UInt8}
    {j : Nat}
    {groups : List UInt8}
    (hRoom : 5 * (j + groups.length) ≤ 8 * buf.length)
    (k : Nat) :
    bit 8 (putGroups buf j groups) k =
      (bit 8 buf k ||
        (decide (5 * j ≤ k) && bit 5 groups (k - 5 * j))) := by
  induction groups generalizing buf j with
  | nil => simp [putGroups]
  | cons c groups ih =>
      rw [List.length_cons] at hRoom
      rw [putGroups,
        ih (by rw [length_putGroup]; omega),
        bit_putGroup (by omega), Bool.or_assoc]
      congr 1
      rw [bit_cons (by decide), bit_nil,
        bit_cons (by decide) c groups]
      by_cases hBelow : 5 * j ≤ k
      · rw [decide_eq_true hBelow, Bool.true_and,
          Bool.true_and]
        by_cases hIn : k - 5 * j < 5
        · rw [if_pos hIn, if_pos hIn,
            decide_eq_false (by omega : ¬ 5 * (j + 1) ≤ k),
            Bool.false_and, Bool.or_false]
        · have hRest : k - 5 * (j + 1) = k - 5 * j - 5 := by
            omega
          rw [if_neg hIn, if_neg hIn,
            decide_eq_true (by omega : 5 * (j + 1) ≤ k),
            Bool.true_and, Bool.false_or, hRest]
      · rw [decide_eq_false hBelow,
          decide_eq_false (by omega : ¬ 5 * (j + 1) ≤ k)]
        rfl

------------------------------------------------------------
-- From Bytes to Groups
------------------------------------------------------------

/- The group with the last `x` bits of one byte in front. -/
def spanGroup (x : Nat) (a b : UInt8) : UInt8 :=
  ((a <<< UInt8.ofNat (5 - x)) |||
    (b >>> UInt8.ofNat (3 + x))) &&& 0x1f

/- The group that lies within a byte. -/
def innerGroup (x : Nat) (b : UInt8) : UInt8 :=
  (b >>> UInt8.ofNat (x - 2)) &&& 0x1f

theorem testBit_and_group
    (byte : UInt8)
    {b : Nat}
    (hBit : b < 5) :
    (byte &&& 0x1f).toNat.testBit b = byte.toNat.testBit b := by
  have hMask : (0x1f : UInt8).toNat = 2 ^ 5 - 1 := rfl
  rw [UInt8.toNat_and, Nat.testBit_and, hMask,
    Nat.testBit_two_pow_sub_one, decide_eq_true hBit,
    Bool.and_true]

theorem and_group_lt
    (byte : UInt8) :
    (byte &&& 0x1f).toNat < 2 ^ 5 := by
  rw [UInt8.toNat_and]
  exact Nat.and_lt_two_pow _ (by decide)

theorem bit_spanGroup
    {x : Nat}
    (hX : x ≤ 4)
    (a b : UInt8)
    {k : Nat}
    (hK : k < 5) :
    bit 5 [spanGroup x a b] k = bit 8 [a, b] (8 - x + k) := by
  rw [bit_cons (by decide), if_pos hK, spanGroup,
    testBit_and_group _ (by omega), UInt8.toNat_or,
    Nat.testBit_or, testBit_shiftLeft _ (by omega) (by omega),
    testBit_shiftRight _ (by omega), bit_cons (by decide)]
  by_cases hFront : k < x
  · have hHigh :
        b.toNat.testBit (3 + x + (5 - 1 - k)) = false := by
      apply testBit_of_lt b.toNat_lt
      omega
    rw [hHigh, Bool.or_false, if_pos (by omega),
      decide_eq_true (by omega : 5 - x ≤ 5 - 1 - k),
      Bool.true_and]
    congr 1
    omega
  · rw [decide_eq_false (by omega : ¬ 5 - x ≤ 5 - 1 - k),
      Bool.false_and, Bool.false_or, if_neg (by omega),
      bit_cons (by decide), if_pos (by omega)]
    congr 1
    omega

theorem bit_innerGroup
    {x : Nat}
    (hLow : 2 ≤ x)
    (hX : x ≤ 4)
    (b : UInt8)
    {k : Nat}
    (hK : k < 5) :
    bit 5 [innerGroup x b] k = bit 8 [b] (5 - x + k) := by
  rw [bit_cons (by decide), if_pos hK, innerGroup,
    testBit_and_group _ (by omega),
    testBit_shiftRight _ (by omega), bit_cons (by decide),
    if_pos (by omega)]
  congr 1
  omega

theorem roundGroups_eq
    (len j : Nat)
    (a b : UInt8) :
    roundGroups len j a b =
      (if j < len ∨ 0 < j % 5 then
        [spanGroup (8 * j % 5) a b] else []) ++
        if 2 ≤ 8 * j % 5 ∧ j < len then
          [innerGroup (8 * j % 5) b] else [] := by
  have hX :
      (j % 5) * 8 - ((j % 5) * 8 / 5) * 5 = 8 * j % 5 := by
    omega
  simp only [roundGroups, hX]
  rfl

theorem length_roundGroups
    {len j : Nat}
    (hJ : j < len)
    (a b : UInt8) :
    5 * (roundGroups len j a b).length + 8 * (j + 1) % 5 =
      8 + 8 * j % 5 := by
  rw [roundGroups_eq, if_pos (Or.inl hJ)]
  split_ifs <;> simp <;> omega

/- A round passes on the bits of its two bytes. -/
theorem bit_roundGroups
    {len j : Nat}
    (hJ : j < len)
    (a b : UInt8)
    {k : Nat}
    (hK : k < 5 * (roundGroups len j a b).length) :
    bit 5 (roundGroups len j a b) k =
      bit 8 [a, b] (8 - 8 * j % 5 + k) := by
  have hX : 8 * j % 5 ≤ 4 := by omega
  rw [roundGroups_eq, if_pos (Or.inl hJ)] at hK ⊢
  by_cases hInner : 2 ≤ 8 * j % 5 ∧ j < len
  · rw [if_pos hInner] at hK ⊢
    rw [bit_append (by decide), List.length_singleton]
    split_ifs with hFirst
    · exact bit_spanGroup hX a b hFirst
    · have hK : k < 10 := hK
      rw [bit_innerGroup hInner.1 hX b (by omega),
        bit_cons (by decide) a, if_neg (by omega)]
      congr 1
      omega
  · rw [if_neg hInner, List.append_nil] at hK ⊢
    exact bit_spanGroup hX a b hK

theorem length_groupsFrom
    {len j : Nat}
    {a : UInt8}
    {program : List UInt8}
    (hLen : j + program.length = len) :
    (groupsFrom len j a program).length + 8 * j / 5 =
      (8 * len + 4) / 5 := by
  induction program generalizing j a with
  | nil =>
      have hEnd : j = len := by simpa using hLen
      rw [groupsFrom, roundGroups_eq]
      by_cases hRest : 0 < j % 5
      · have hOver : 0 < 8 * j % 5 := by omega
        rw [if_pos (Or.inr hRest), if_neg (by omega),
          List.append_nil, List.length_singleton]
        omega
      · rw [if_neg (by omega), if_neg (by omega)]
        simp
        omega
  | cons b program ih =>
      rw [List.length_cons] at hLen
      have hRound :=
        length_roundGroups (by omega : j < len) a b
      have hRest := @ih (j + 1) b (by omega)
      rw [groupsFrom, List.length_append]
      omega

/-
  The bits of the groups are those of the program, behind the
  last bits of the byte before it.
-/
theorem bit_groupsFrom
    {len j : Nat}
    {a : UInt8}
    {program : List UInt8}
    (hLen : j + program.length = len)
    (k : Nat) :
    bit 5 (groupsFrom len j a program) k =
      bit 8 (a :: program) (8 - 8 * j % 5 + k) := by
  induction program generalizing j a k with
  | nil =>
      have hEnd : j = len := by simpa using hLen
      have hX : 8 * j % 5 ≤ 4 := by omega
      rw [groupsFrom, roundGroups_eq,
        if_neg (by omega : ¬ (2 ≤ 8 * j % 5 ∧ j < len)),
        List.append_nil]
      by_cases hRest : 0 < j % 5
      · rw [if_pos (Or.inr hRest)]
        by_cases hK : k < 5
        · rw [bit_spanGroup hX a 0 hK, bit_cons (by decide),
            bit_cons (by decide) a]
          split_ifs
          · rfl
          · simp [bit_cons]
        · rw [bit_of_length_le (by decide),
            bit_of_length_le (by decide)]
          · simp
            omega
          · simp
            omega
      · rw [if_neg (by omega), bit_nil,
          bit_of_length_le (by decide)]
        simp
        omega
  | cons b program ih =>
      rw [List.length_cons] at hLen
      have hJ : j < len := by omega
      have hRound := length_roundGroups hJ a b
      rw [groupsFrom, bit_append (by decide)]
      split_ifs with hFirst
      · rw [bit_roundGroups hJ a b hFirst,
          bit_cons (by decide), bit_cons (by decide) a]
        split_ifs with hA
        · rfl
        · rw [bit_cons (by decide), bit_cons (by decide) b]
          have hB : 8 - 8 * j % 5 + k - 8 < 8 := by
            omega
          rw [if_pos hB, if_pos hB]
      · rw [ih (by omega), bit_cons (by decide) a,
          if_neg (by omega)]
        congr 1
        omega

theorem lt_of_mem_groupsFrom
    {len j : Nat}
    {a : UInt8}
    {program : List UInt8} :
    ∀ group ∈ groupsFrom len j a program,
      group.toNat < 2 ^ 5 := by
  have hRound :
      ∀ j a b, ∀ group ∈ roundGroups len j a b,
        group.toNat < 2 ^ 5 := by
    intro j a b group hGroup
    rw [roundGroups_eq] at hGroup
    rcases List.mem_append.mp hGroup with hSpan | hInner
    · rw [List.mem_ite_nil_right, List.mem_singleton] at hSpan
      rw [hSpan.2]
      exact and_group_lt _
    · rw [List.mem_ite_nil_right, List.mem_singleton] at hInner
      rw [hInner.2]
      exact and_group_lt _
  induction program generalizing j a with
  | nil => exact hRound j a 0
  | cons b program ih =>
      intro group hGroup
      rcases List.mem_append.mp hGroup with hHere | hRest
      · exact hRound j a b group hHere
      · exact ih group hRest

end BRBech32

end PlusWallet
