import PlusWallet.Library.XorBytes

/-
  Sets of numbers as bits of a list of bytes, the lowest bit of
  a byte first.

  Main declarations:
    * `hasBit`, `setBit`
    * `hasBit_setBit`, `hasBit_setBits`
-/

namespace PlusWallet

namespace BitField

/- The byte with the bit of a number only. -/
def mask (k : Nat) : UInt8 :=
  UInt8.ofNat (1 <<< (k % 8))

/- Whether a number is in the set. -/
def hasBit (bytes : List UInt8) (k : Nat) : Bool :=
  bytes.getD (k / 8) 0 &&& mask k ≠ 0

/- Add a number to the set. -/
def setBit (bytes : List UInt8) (k : Nat) : List UInt8 :=
  bytes.set (k / 8) (bytes.getD (k / 8) 0 ||| mask k)

@[simp]
theorem length_setBit (bytes : List UInt8) (k : Nat) :
    (setBit bytes k).length = bytes.length :=
  List.length_set

@[simp]
theorem length_setBits
    (bytes : List UInt8)
    (numbers : List Nat) :
    (numbers.foldl setBit bytes).length = bytes.length := by
  induction numbers generalizing bytes with
  | nil => rfl
  | cons k numbers ih =>
      rw [List.foldl_cons, ih, length_setBit]

theorem and_mask_ne_zero_iff
    (byte : UInt8)
    (k : Nat) :
    byte &&& mask k ≠ 0 ↔ byte.toNat.testBit (k % 8) := by
  have hSmall :
      ∀ byte : UInt8, ∀ k < 8,
        (byte &&& UInt8.ofNat (1 <<< k) ≠ 0 ↔
          byte.toNat.testBit k) := by
    refine XorBytes.forall_byte ?_
    decide +kernel
  exact hSmall byte (k % 8) (Nat.mod_lt _ (by decide))

theorem testBit_mask (k other : Nat) :
    (mask k).toNat.testBit (other % 8) =
      decide (other % 8 = k % 8) := by
  have hSmall :
      ∀ k < 8, ∀ other < 8,
        (UInt8.ofNat (1 <<< k)).toNat.testBit other =
          decide (other = k) := by
    decide
  exact
    hSmall (k % 8) (Nat.mod_lt _ (by decide))
      (other % 8) (Nat.mod_lt _ (by decide))

/- A mask sets its own bit and leaves the others. -/
theorem or_mask_and_mask
    (byte : UInt8)
    (k other : Nat) :
    (byte ||| mask k) &&& mask other ≠ 0 ↔
      byte &&& mask other ≠ 0 ∨ other % 8 = k % 8 := by
  rw [and_mask_ne_zero_iff, and_mask_ne_zero_iff,
    UInt8.toNat_or, Nat.testBit_or, testBit_mask,
    Bool.or_eq_true, decide_eq_true_eq]

theorem hasBit_setBit
    {bytes : List UInt8}
    {k : Nat}
    (hInside : k < 8 * bytes.length)
    (other : Nat) :
    hasBit (setBit bytes k) other =
      (hasBit bytes other || decide (other = k)) := by
  have hByte : k / 8 < bytes.length := by omega
  have hSame :
      other = k ↔
        other / 8 = k / 8 ∧ other % 8 = k % 8 := by
    omega
  rw [Bool.eq_iff_iff, Bool.or_eq_true, decide_eq_true_iff,
    hSame]
  simp only [hasBit, decide_eq_true_iff]
  by_cases hPlace : other / 8 = k / 8
  · have hRead :
        (setBit bytes k).getD (other / 8) 0 =
          bytes.getD (other / 8) 0 ||| mask k := by
      rw [setBit, hPlace, List.getD_eq_getElem?_getD,
        List.getElem?_set_self hByte]
      rfl
    rw [hRead, or_mask_and_mask]
    simp [hPlace]
  · have hRead :
        (setBit bytes k).getD (other / 8) 0 =
          bytes.getD (other / 8) 0 := by
      rw [setBit, List.getD_eq_getElem?_getD,
        List.getElem?_set_ne (Ne.symm hPlace),
        List.getD_eq_getElem?_getD]
    rw [hRead]
    simp [hPlace]

/- Adding numbers adds these and no others. -/
theorem hasBit_setBits
    {bytes : List UInt8}
    {numbers : List Nat}
    (hInside : ∀ k ∈ numbers, k < 8 * bytes.length)
    (other : Nat) :
    hasBit (numbers.foldl setBit bytes) other =
      (hasBit bytes other || decide (other ∈ numbers)) := by
  induction numbers generalizing bytes with
  | nil => simp
  | cons k numbers ih =>
      rw [List.forall_mem_cons] at hInside
      rw [List.foldl_cons,
        ih (by simpa using hInside.2),
        hasBit_setBit hInside.1, Bool.or_assoc]
      simp [List.mem_cons, Bool.decide_or]

end BitField

end PlusWallet
