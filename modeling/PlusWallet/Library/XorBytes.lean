import Mathlib

/-
  Bytes and lists of bytes under exclusive or.

  Main declarations:
    * `forall_byte`
    * `and_one_xor`
    * `xorBytes`, `xorBytes_xorBytes`
-/

namespace PlusWallet

namespace XorBytes

/- What holds of all numbers below 256 holds of all bytes. -/
@[elab_as_elim]
theorem forall_byte
    {Holds : UInt8 → Prop}
    (hAll : ∀ number < 256, Holds (UInt8.ofNat number))
    (byte : UInt8) :
    Holds byte := by
  have hByte := hAll byte.toNat byte.toNat_lt
  rwa [UInt8.ofNat_toNat] at hByte

theorem xor_xor_left (a b : UInt8) : a ^^^ (a ^^^ b) = b := by
  rw [← UInt8.xor_assoc, UInt8.xor_self, UInt8.zero_xor]

theorem xor_xor_right (a b : UInt8) : (a ^^^ b) ^^^ b = a := by
  rw [UInt8.xor_assoc, UInt8.xor_self, UInt8.xor_zero]

/- The last bit of a byte. -/
theorem and_one_cases (byte : UInt8) :
    byte &&& 1 = 0 ∨ byte &&& 1 = 1 := by
  refine forall_byte ?_ byte
  decide +kernel

theorem and_one_xor (a b : UInt8) :
    (a ^^^ b) &&& 1 = (a &&& 1) ^^^ (b &&& 1) := by
  apply UInt8.toBitVec_inj.mp
  ext i
  simp only [UInt8.toBitVec_and, UInt8.toBitVec_xor,
    BitVec.getElem_and, BitVec.getElem_xor]
  exact Bool.and_xor_distrib_right _ _ _

/- Two lists of bytes, byte by byte. -/
def xorBytes (left right : List UInt8) : List UInt8 :=
  List.zipWith (fun a b => a ^^^ b) left right

@[simp]
theorem length_xorBytes (left right : List UInt8) :
    (xorBytes left right).length =
      min left.length right.length :=
  List.length_zipWith

/- The same bytes once more give the list back. -/
theorem xorBytes_xorBytes
    {left right : List UInt8}
    (hLength : left.length ≤ right.length) :
    xorBytes (xorBytes left right) right = left := by
  induction left generalizing right with
  | nil => rfl
  | cons a left ih =>
      rcases right with _ | ⟨b, right⟩
      · exact absurd hLength (Nat.not_succ_le_zero _)
      · change
          ((a ^^^ b) ^^^ b) ::
              xorBytes (xorBytes left right) right =
            a :: left
        rw [xor_xor_right,
          ih (Nat.le_of_succ_le_succ hLength)]

end XorBytes

end PlusWallet
