import PlusWallet.Cipher.Aes

/-
  AES-128 in counter mode, as `BRKeyECIES.c` computes it.

  The bytes that are made of the key and the counter do not
  depend on the data, so that the same call takes itself back.

  Main declarations:
    * `roundKey128`, `encryptCounter`, `increment`
    * `_BRAES128CTR`, `ctr_ctr`
-/

namespace PlusWallet

namespace Aes

open Reversible XorBytes

------------------------------------------------------------
-- The Key of AES-128
------------------------------------------------------------

/-
  What makes the next 16 bytes of the expanded key out of the
  last ones.
-/
def keyChanges128 (r : UInt8) : List (Change UInt8) :=
  [⟨0, 13, fun b => sbox b ^^^ r⟩, ⟨1, 14, sbox⟩,
      ⟨2, 15, sbox⟩, ⟨3, 12, sbox⟩] ++
    (List.range' 4 12).map chainChange

/- The 16 bytes of the expanded key for a round, and `r`. -/
def roundKey128
    (key16 : List UInt8) : Nat → List UInt8 × UInt8
  | 0 => (key16, 1)
  | i + 1 =>
      let (k, r) := roundKey128 key16 i
      (runChanges (fun a b => a ^^^ b) (keyChanges128 r) k,
        xt r)

------------------------------------------------------------
-- Counter Mode
------------------------------------------------------------

/- The counter after so many rounds. -/
def counterRounds (key16 iv : List UInt8) : Nat → List UInt8
  | 0 => iv
  | i + 1 =>
      let x :=
        addRoundKey (counterRounds key16 iv i)
          (roundKey128 key16 i).1
      let x := shiftRows (subBytes x)
      if i < 9 then mixColumns x else x

/- The bytes that are made of a counter. -/
def encryptCounter (key16 iv : List UInt8) : List UInt8 :=
  -- final add round key
  addRoundKey (counterRounds key16 iv 10)
    (roundKey128 key16 10).1

/- Add one to a number, the least byte first. -/
def incrementLow : List UInt8 → List UInt8
  | [] => []
  | byte :: rest =>
      if byte + 1 = 0 then 0 :: incrementLow rest
      else (byte + 1) :: rest

/- Increment the counter with overflow. -/
def increment (iv : List UInt8) : List UInt8 :=
  (incrementLow iv.reverse).reverse

/- The loop over the data, with `x` and the counter. -/
def ctrFrom
    (key16 : List UInt8) :
    Nat → List UInt8 → List UInt8 → List UInt8 →
      List UInt8
  | _, _, _, [] => []
  | off, x, iv, byte :: data =>
      if off % 16 = 0 then
        -- generate xor compliment
        let x := encryptCounter key16 iv
        (byte ^^^ x.getD (off % 16) 0) ::
          ctrFrom key16 (off + 1) x (increment iv) data
      else
        (byte ^^^ x.getD (off % 16) 0) ::
          ctrFrom key16 (off + 1) x iv data

def _BRAES128CTR (key16 iv16 data : List UInt8) : List UInt8 :=
  ctrFrom key16 0 [] iv16 data

theorem length_ctrFrom
    (key16 : List UInt8)
    (off : Nat)
    (x iv data : List UInt8) :
    (ctrFrom key16 off x iv data).length = data.length := by
  induction data generalizing off x iv with
  | nil => rfl
  | cons byte data ih =>
      rw [ctrFrom]
      split_ifs
      · exact congrArg Nat.succ (ih _ _ _)
      · exact congrArg Nat.succ (ih _ _ _)

theorem ctrFrom_ctrFrom
    (key16 : List UInt8)
    (off : Nat)
    (x iv data : List UInt8) :
    ctrFrom key16 off x iv (ctrFrom key16 off x iv data) =
      data := by
  induction data generalizing off x iv with
  | nil => rfl
  | cons byte data ih =>
      by_cases hBlock : off % 16 = 0
      · rw [ctrFrom, if_pos hBlock, ctrFrom, if_pos hBlock]
        dsimp only
        rw [xor_xor_right, ih]
      · rw [ctrFrom, if_neg hBlock, ctrFrom, if_neg hBlock,
          xor_xor_right, ih]

theorem length_ctr (key16 iv16 data : List UInt8) :
    (_BRAES128CTR key16 iv16 data).length = data.length :=
  length_ctrFrom key16 0 [] iv16 data

/- The same call once more gives the data back. -/
theorem ctr_ctr (key16 iv16 data : List UInt8) :
    _BRAES128CTR key16 iv16 (_BRAES128CTR key16 iv16 data) =
      data :=
  ctrFrom_ctrFrom key16 0 [] iv16 data

end Aes

end PlusWallet
