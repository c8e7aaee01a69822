import PlusWallet.Cipher.Aes

/-
  The decryption of a block takes back its encryption, round by
  round, while it takes back the key schedule that the
  encryption runs.

  Main declarations:
    * `xt_xor`, `unmixColumns_mixColumns`
    * `unexpandKey_expandKey`
    * `backState`, `decryptRound_backState`
    * `decrypt_encrypt`
-/

namespace PlusWallet

namespace Aes

open Reversible XorBytes

------------------------------------------------------------
-- Bytes Back
------------------------------------------------------------

theorem sboxi_sbox (b : UInt8) : sboxi (sbox b) = b := by
  refine forall_byte ?_ b
  decide +kernel

theorem unxt_xt (r : UInt8) : unxt (xt r) = r := by
  refine forall_byte ?_ r
  decide +kernel

theorem undoes_xor : Undoes fun a b : UInt8 => a ^^^ b :=
  xor_xor_right

/- To double is to add. -/
theorem xt_xor (x y : UInt8) :
    xt (x ^^^ y) = xt x ^^^ xt y := by
  have hBit :
      (((x ^^^ y) >>> (7 : UInt8)) &&& 1) * 0x1b =
        ((x >>> (7 : UInt8)) &&& 1) * 0x1b ^^^
          ((y >>> (7 : UInt8)) &&& 1) * 0x1b := by
    rw [UInt8.shiftRight_xor, and_one_xor]
    rcases and_one_cases (x >>> 7) with hx | hx <;>
      rcases and_one_cases (y >>> 7) with hy | hy <;>
      rw [hx, hy] <;> rfl
  rw [xt, hBit, UInt8.shiftLeft_xor, xt, xt]
  ac_rfl

------------------------------------------------------------
-- Blocks Back
------------------------------------------------------------

theorem unsubBytes_subBytes (x : List UInt8) :
    unsubBytes (subBytes x) = x := by
  unfold unsubBytes subBytes
  rw [List.map_map]
  exact (List.map_congr_left fun b _ => sboxi_sbox b).trans
    (List.map_id x)

/- One selection of places behind another. -/
theorem permute_permute
    {places back : List Nat}
    (hBack : ∀ place ∈ back, place < places.length)
    (x : List UInt8) :
    permute back (permute places x) =
      permute (back.map fun place => places.getD place 0)
        x := by
  unfold permute
  rw [List.map_map]
  apply List.map_congr_left
  intro place hPlace
  have hLt := hBack place hPlace
  rw [List.getD_eq_getElem _ _ (by rwa [List.length_map]),
    List.getElem_map, Function.comp_apply,
    List.getD_eq_getElem _ _ hLt]

theorem permute_range
    {size : Nat}
    {x : List UInt8}
    (hLength : x.length = size) :
    permute (List.range size) x = x := by
  apply List.ext_getElem
  · rw [permute, List.length_map, List.length_range, hLength]
  · intro place hLeft hRight
    simp only [permute, List.getElem_map, List.getElem_range]
    exact List.getD_eq_getElem _ _ hRight

theorem unshiftRows_shiftRows
    {x : List UInt8}
    (hLength : x.length = 16) :
    unshiftRows (shiftRows x) = x := by
  unfold unshiftRows shiftRows
  rw [permute_permute (by decide)]
  exact permute_range hLength

/- A byte of a mixed column, of sum `e`, above the next byte. -/
def mixByte (e a b : UInt8) : UInt8 :=
  a ^^^ (e ^^^ xt (a ^^^ b))

theorem xor_left_comm (a b c : UInt8) :
    a ^^^ (b ^^^ c) = b ^^^ (a ^^^ c) := by
  rw [← UInt8.xor_assoc, UInt8.xor_comm a, UInt8.xor_assoc]

/- Two bytes next to each other. -/
theorem mixByte_next (e a b c : UInt8) :
    mixByte e a b ^^^ mixByte e b c =
      a ^^^ b ^^^ xt (a ^^^ c) := by
  simp only [mixByte, xt_xor]
  generalize xt a = p, xt b = q, xt c = r
  simp only [UInt8.xor_assoc, xor_left_comm, xor_xor_left]

/- Two bytes with one between them, on the double of the sum. -/
theorem mixByte_opposite (e a b c d : UInt8) :
    xt (a ^^^ b ^^^ c ^^^ d) ^^^ mixByte e a b ^^^
        mixByte e c d =
      a ^^^ c := by
  simp only [mixByte, xt_xor]
  generalize xt a = p, xt b = q, xt c = r, xt d = s
  simp only [UInt8.xor_comm, xor_left_comm, xor_xor_left,
    UInt8.xor_self, UInt8.xor_zero]

/- The sum of a column stays. -/
theorem mixByte_sum (e a b c d : UInt8) :
    mixByte e a b ^^^ mixByte e b c ^^^ mixByte e c d ^^^
        mixByte e d a =
      a ^^^ b ^^^ c ^^^ d := by
  rw [UInt8.xor_assoc _ (mixByte e c d), mixByte_next,
    mixByte_next, UInt8.xor_comm c a]
  generalize xt (a ^^^ c) = p
  simp only [UInt8.xor_comm, xor_left_comm, UInt8.xor_self,
    UInt8.xor_zero]

/- How a byte comes back. -/
theorem mixByte_back (e a b c : UInt8) :
    mixByte e a b ^^^
        ((e ^^^ xt (xt (a ^^^ c))) ^^^
          xt (mixByte e a b ^^^ mixByte e b c)) =
      a := by
  rw [mixByte_next, xt_xor (a ^^^ b), mixByte]
  generalize xt (a ^^^ b) = p, xt (xt (a ^^^ c)) = q
  simp only [UInt8.xor_comm, xor_left_comm, xor_xor_left,
    UInt8.xor_self, UInt8.xor_zero]

theorem unmixColumns_mixColumns (x : List UInt8) :
    unmixColumns (mixColumns x) = x := by
  fun_induction mixColumns x with
  | case1 a b c d rest e ih =>
      have hFirst := mixByte_opposite e a b c d
      have hSecond := mixByte_opposite e b c d a
      rw [show b ^^^ c ^^^ d ^^^ a = e by
        rw [UInt8.xor_comm, ← UInt8.xor_assoc,
          ← UInt8.xor_assoc]] at hSecond
      change
        unmixColumns
            (mixByte e a b :: mixByte e b c :: mixByte e c d ::
              mixByte e d a :: mixColumns rest) =
          a :: b :: c :: d :: rest
      simp only [unmixColumns]
      rw [ih, mixByte_sum, hFirst, hSecond, mixByte_back,
        mixByte_back, UInt8.xor_comm a c, mixByte_back,
        UInt8.xor_comm b d, mixByte_back]
  | case2 rest hRest =>
      unfold unmixColumns
      split
      · rename_i a b c d rest
        exact absurd rfl (hRest a b c d rest)
      · rfl

------------------------------------------------------------
-- The Key Back
------------------------------------------------------------

theorem sound_chain
    {j : Nat}
    (hj : 4 ≤ j) :
    (chainChange j).Sound := by
  change j - 4 ≠ j
  omega

theorem sound_chains
    {start size : Nat}
    (hStart : 4 ≤ start) :
    ∀ change ∈ (List.range' start size).map chainChange,
      change.Sound := by
  intro change hChange
  rcases List.mem_map.mp hChange with ⟨j, hj, rfl⟩
  exact
    sound_chain
      (le_trans hStart (List.left_le_of_mem_range' hj))

theorem apart_firstChanges (r : UInt8) :
    (firstChanges r).Pairwise Change.Apart := by
  simp [firstChanges, Change.apart_iff]

theorem apart_middleChanges :
    middleChanges.Pairwise Change.Apart := by
  simp [middleChanges, Change.apart_iff]

theorem sound_keyChanges (r : UInt8) :
    ∀ change ∈ keyChanges r, change.Sound := by
  simp only [keyChanges, List.forall_mem_append]
  refine ⟨⟨⟨?_, sound_chains (by decide)⟩, ?_⟩,
    sound_chains (by decide)⟩
  · simp [firstChanges, Change.Sound]
  · simp [middleChanges, Change.Sound]

/- The source takes the changes back in reverse order. -/
theorem runChanges_keyUnchanges
    (r : UInt8)
    (k : List UInt8) :
    unexpandKey r k =
      runChanges (fun a b => a ^^^ b) (keyChanges r).reverse
        k := by
  unfold unexpandKey keyUnchanges keyChanges
  simp only [List.reverse_append, runChanges_append,
    runChanges_reverse_of_apart apart_middleChanges,
    runChanges_reverse_of_apart (apart_firstChanges r)]

theorem unexpandKey_expandKey
    (r : UInt8)
    (k : List UInt8) :
    unexpandKey r (expandKey r k) = k := by
  rw [runChanges_keyUnchanges]
  exact runChanges_reverse undoes_xor (sound_keyChanges r) k

------------------------------------------------------------
-- The Lengths
------------------------------------------------------------

theorem length_permute
    (places : List Nat)
    (x : List UInt8) :
    (permute places x).length = places.length :=
  List.length_map _

theorem length_mixColumns (x : List UInt8) :
    (mixColumns x).length = x.length := by
  fun_induction mixColumns x with
  | case1 a b c d rest e ih => simp only [List.length_cons, ih]
  | case2 rest hRest => rfl

theorem length_expandedKey
    (key : List UInt8)
    (i : Nat) :
    (expandedKey key i).1.length = key.length := by
  induction i with
  | zero => rfl
  | succ i ih =>
      rw [expandedKey]
      dsimp only
      unfold expandKey
      rw [length_runChanges, ih]

theorem length_roundKey
    {k : List UInt8}
    (hk : k.length = 32)
    (i : Nat) :
    (roundKey k i).length = 16 := by
  have hHalf : i % 2 < 2 := Nat.mod_lt i two_pos
  rw [roundKey, List.length_take, List.length_drop, hk]
  omega

------------------------------------------------------------
-- The Rounds Back
------------------------------------------------------------

/- The key that round `i` of the encryption adds. -/
def addedKey (key : List UInt8) (i : Nat) : List UInt8 :=
  roundKey (expandedKey key (i / 2)).1 i

/- The key that is added behind the last round. -/
theorem addedKey_last (key : List UInt8) :
    addedKey key 14 =
      roundKey (expandedKey key (14 / 2)).1 0 := by
  unfold addedKey roundKey
  norm_num

/- A round adds the same key once more to take it back. -/
theorem addRoundKey_addRoundKey
    {x k : List UInt8}
    (hLength : x.length ≤ k.length) :
    addRoundKey (addRoundKey x k) k = x :=
  xorBytes_xorBytes hLength

/- What a round makes of a block and the key it adds. -/
def roundBlock (i : Nat) (x k : List UInt8) : List UInt8 :=
  let x := shiftRows (subBytes (addRoundKey x k))
  if i < 13 then mixColumns x else x

theorem x_encryptRound
    (i : Nat)
    (state : EcbState) :
    (encryptRound i state).x =
      roundBlock i state.x (roundKey state.k i) := by
  unfold encryptRound roundBlock
  dsimp only
  split_ifs <;> rfl

theorem length_roundBlock
    (i : Nat)
    (x k : List UInt8) :
    (roundBlock i x k).length = 16 := by
  unfold roundBlock shiftRows
  dsimp only
  split_ifs
  · rw [length_mixColumns, length_permute]
    rfl
  · rw [length_permute]
    rfl

theorem unsub_roundBlock
    {i j : Nat}
    {x k : List UInt8}
    (hMixed : 0 < j ↔ i < 13)
    (hx : x.length = 16)
    (hk : k.length = 16) :
    unsubBytes (unshiftRows
        (if 0 < j then unmixColumns (roundBlock i x k)
          else roundBlock i x k)) =
      addRoundKey x k := by
  have hLength :
      (subBytes (addRoundKey x k)).length = 16 := by
    rw [subBytes, List.length_map, addRoundKey,
      length_xorBytes, hx, hk]
    rfl
  have hUnmixed :
      (if 0 < j then unmixColumns (roundBlock i x k)
          else roundBlock i x k) =
        shiftRows (subBytes (addRoundKey x k)) := by
    unfold roundBlock
    by_cases hi : i < 13
    · rw [if_pos (hMixed.mpr hi), if_pos hi]
      exact unmixColumns_mixColumns _
    · rw [if_neg (mt hMixed.mp hi), if_neg hi]
  rw [hUnmixed, unshiftRows_shiftRows hLength,
    unsubBytes_subBytes]

variable {key buf : List UInt8}

/- The key and its factor while the source encrypts. -/
theorem key_encryptRounds (i : Nat) :
    (encryptRounds key buf i).k =
        (expandedKey key (i / 2)).1 ∧
      (encryptRounds key buf i).r =
        (expandedKey key (i / 2)).2 := by
  induction i with
  | zero => exact ⟨rfl, rfl⟩
  | succ i ih =>
      rcases ih with ⟨hk, hr⟩
      rw [encryptRounds, encryptRound]
      by_cases hOdd : i % 2 ≠ 0
      · rw [if_pos hOdd,
          show (i + 1) / 2 = i / 2 + 1 by omega, hk, hr]
        exact ⟨rfl, rfl⟩
      · rw [if_neg hOdd, show (i + 1) / 2 = i / 2 by omega]
        exact ⟨hk, hr⟩

theorem x_encryptRounds (i : Nat) :
    (encryptRounds key buf (i + 1)).x =
      roundBlock i (encryptRounds key buf i).x
        (addedKey key i) := by
  rw [encryptRounds, x_encryptRound, key_encryptRounds i |>.1]
  rfl

theorem length_encryptRounds
    (key : List UInt8)
    (hBuf : buf.length = 16)
    (i : Nat) :
    (encryptRounds key buf i).x.length = 16 := by
  cases i with
  | zero => exact hBuf
  | succ i =>
      rw [x_encryptRounds]
      exact length_roundBlock _ _ _

theorem length_addedKey
    (hKey : key.length = 32)
    (i : Nat) :
    (addedKey key i).length = 16 := by
  apply length_roundKey
  rw [length_expandedKey, hKey]

/-
  The variables of the decryption that has come back to the
  begin of round `i`
-/
def backState (key buf : List UInt8) (i : Nat) : EcbState where
  x := addRoundKey (encryptRounds key buf i).x (addedKey key i)
  k := (expandedKey key (i / 2)).1
  r := (expandedKey key (i / 2)).2

/- A round of the decryption goes back one round. -/
theorem decryptRound_backState
    (hKey : key.length = 32)
    (hBuf : buf.length = 16)
    {i j : Nat}
    (hSum : i + j = 13) :
    decryptRound j (backState key buf (i + 1)) =
      backState key buf i := by
  have hAdded :
      roundKey (backState key buf (i + 1)).k j =
        addedKey key (i + 1) := by
    unfold addedKey roundKey backState
    rw [show j % 2 = (i + 1) % 2 by omega]
  have hBlock :
      addRoundKey (backState key buf (i + 1)).x
          (addedKey key (i + 1)) =
        roundBlock i (encryptRounds key buf i).x
          (addedKey key i) := by
    rw [← x_encryptRounds]
    apply addRoundKey_addRoundKey
    rw [length_encryptRounds key hBuf, length_addedKey hKey]
  have hUnsub :=
    unsub_roundBlock
      (show 0 < j ↔ i < 13 by omega)
      (length_encryptRounds key hBuf i)
      (length_addedKey hKey i)
  unfold decryptRound
  dsimp only
  rw [hAdded, hBlock, hUnsub]
  by_cases hEven : j % 2 = 0
  · rw [if_pos hEven]
    unfold backState
    rw [show (i + 1) / 2 = i / 2 + 1 by omega, expandedKey]
    dsimp only
    rw [unxt_xt, unexpandKey_expandKey]
  · rw [if_neg hEven]
    unfold backState
    rw [show (i + 1) / 2 = i / 2 by omega]

theorem decryptRounds_eq
    (hKey : key.length = 32)
    (hBuf : buf.length = 16)
    {i j : Nat}
    (hSum : i + j = 14) :
    decryptRounds key (_BRAES256ECBEncrypt key buf) j =
      backState key buf i := by
  induction j generalizing i with
  | zero =>
      obtain rfl : i = 14 := by omega
      rw [_BRAES256ECBEncrypt, key_encryptRounds 14 |>.1,
        ← addedKey_last, decryptRounds, backState]
  | succ j ih =>
      rw [decryptRounds, ih (i := i + 1) (by omega)]
      exact decryptRound_backState hKey hBuf (by omega)

/- Decryption undoes encryption. -/
theorem decrypt_encrypt
    (hKey : key.length = 32)
    (hBuf : buf.length = 16) :
    _BRAES256ECBDecrypt key (_BRAES256ECBEncrypt key buf) =
      buf := by
  have hFirst :
      decryptRounds key (_BRAES256ECBEncrypt key buf) 14 =
        backState key buf 0 :=
    decryptRounds_eq hKey hBuf (Nat.zero_add 14)
  rw [_BRAES256ECBDecrypt, hFirst]
  apply addRoundKey_addRoundKey
  rw [length_encryptRounds key hBuf, length_addedKey hKey]

theorem length_encrypt
    (hKey : key.length = 32)
    (hBuf : buf.length = 16) :
    (_BRAES256ECBEncrypt key buf).length = 16 := by
  rw [_BRAES256ECBEncrypt, key_encryptRounds 14 |>.1,
    ← addedKey_last, addRoundKey, length_xorBytes,
    length_encryptRounds key hBuf, length_addedKey hKey]
  rfl

end Aes

end PlusWallet
