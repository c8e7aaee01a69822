import PlusWallet.Library.LinearChecksum
import PlusWallet.Address.BRBCashAddr
import PlusWallet.Address.Bech32
import PlusWallet.Address.Base58Check
import PlusWallet.Library.Faults

/-
  Which b-cash addresses are accepted, and what comes back when
  they are encoded.

  Main declarations:
    * `code`, `toNat_feed`
    * `Shaped`, `decodeData_of_shaped`, `shaped_of_decodeData`
    * `Canonical`, `encodeData_eq_toLower_iff`
    * `codec_of_canonical`
-/

namespace PlusWallet

namespace BRBCashAddr

open LinearChecksum Bits
open BRBech32 (digit char chars putGroup putGroups groupsFrom
  groupOf groupsOf guard_pos of_guard)

------------------------------------------------------------
-- The Checksum
------------------------------------------------------------

/- The checksum as a linear code of 40 bits. -/
def code : Code where
  width := 5
  low := 35
  masks :=
    [0x98f2bc8e61, 0x79b76d99e2, 0xf33e5fb3c4, 0xae2eabe2a8,
      0x1e4f43e470]
  masks_lt := by decide

theorem fits_code : Code.Fits code 8 := by
  constructor <;> decide

theorem toNat_polymodTerm
    {n : UInt64}
    (hN : n.toNat < 64)
    (x mask : UInt64) :
    (polymodTerm x n mask).toNat =
      if x.toNat.testBit n.toNat then mask.toNat else 0 := by
  have hBit :
      ((x >>> n) &&& 1).toNat =
        (x.toNat.testBit n.toNat).toNat := by
    rw [UInt64.toNat_and, UInt64.toNat_shiftRight,
      Nat.mod_eq_of_lt hN, Nat.testBit_eq_decide_div_mod_eq,
      Nat.shiftRight_eq_div_pow]
    have hOne : (1 : UInt64).toNat = 1 := rfl
    rw [hOne, Nat.and_one_is_mod]
    rcases Nat.mod_two_eq_zero_or_one
      (x.toNat / 2 ^ n.toNat) with hMod | hMod <;>
      rw [hMod] <;> rfl
  unfold polymodTerm
  cases hSet : x.toNat.testBit n.toNat
  · rw [hSet] at hBit
    have hZero : (x >>> n) &&& 1 = 0 :=
      UInt64.toNat_inj.mp hBit
    rw [hZero]
    simp
  · rw [hSet] at hBit
    have hOne : (x >>> n) &&& 1 = 1 :=
      UInt64.toNat_inj.mp hBit
    have hOnes : (-1 : UInt64).toNat = 2 ^ 64 - 1 := by decide
    rw [hOne, if_pos rfl, UInt64.toNat_and, hOnes,
      Nat.and_comm, Nat.and_two_pow_sub_one_eq_mod,
      Nat.mod_eq_of_lt mask.toNat_lt]

theorem toNat_polymod
    (x : UInt64) :
    (polymod x).toNat = code.step x.toNat := by
  have hShift :
      ((x &&& (0x07ffffffff : UInt64)) <<<
          (5 : UInt64)).toNat =
        x.toNat % 2 ^ 35 * 2 ^ 5 := by
    have hMask : (0x07ffffffff : UInt64).toNat = 2 ^ 35 - 1 :=
      rfl
    have hFive : (5 : UInt64).toNat % 64 = 5 := rfl
    have hLow := Nat.mod_lt x.toNat (by decide : 0 < 2 ^ 35)
    rw [UInt64.toNat_shiftLeft, UInt64.toNat_and, hMask, hFive,
      Nat.and_two_pow_sub_one_eq_mod, Nat.shiftLeft_eq]
    exact Nat.mod_eq_of_lt (by omega)
  unfold polymod
  simp only [UInt64.toNat_xor, hShift]
  rw [toNat_polymodTerm (by decide), toNat_polymodTerm (by decide),
    toNat_polymodTerm (by decide), toNat_polymodTerm (by decide),
    toNat_polymodTerm (by decide)]
  have hDiv :
      ∀ n, (x.toNat / n).testBit 0 =
        decide (x.toNat / n % 2 = 1) :=
    fun n => Nat.testBit_zero _
  simp only [Code.step, code, terms, Nat.div_div_eq_div_mul,
    Nat.xor_assoc, Nat.xor_zero, hDiv]
  simp only [Nat.testBit_eq_decide_div_mod_eq]
  rfl

theorem toNat_feed
    (chk : UInt64)
    (groups : List UInt8) :
    (feed chk groups).toNat =
      code.feed chk.toNat (groups.map UInt8.toNat) := by
  induction groups generalizing chk with
  | nil => rfl
  | cons group groups ih =>
      rw [List.map_cons, Code.feed_cons, ← toNat_polymod]
      exact ih _

theorem feed_append
    (chk : UInt64)
    (groups other : List UInt8) :
    feed chk (groups ++ other) =
      feed (feed chk groups) other :=
  List.foldl_append

/- The group of some bits of a number. -/
theorem toNat_checkGroup
    (number : UInt64)
    {shift : Nat}
    (hShift : shift < 64) :
    ((number >>> UInt64.ofNat shift) &&& 0x1f).toUInt8.toNat =
      number.toNat / 2 ^ shift % 32 := by
  have hMask : (0x1f : UInt64).toNat = 2 ^ 5 - 1 := rfl
  have hNat : (UInt64.ofNat shift).toNat % 64 = shift := by
    rw [UInt64.toNat_ofNat']
    omega
  rw [UInt64.toNat_toUInt8, UInt64.toNat_and, hMask,
    Nat.and_two_pow_sub_one_eq_mod, UInt64.toNat_shiftRight,
    hNat, Nat.shiftRight_eq_div_pow]
  omega

theorem map_checkGroups
    (chk : UInt64) :
    (checkGroups chk).map UInt8.toNat =
      code.checkGroups 8 chk.toNat := by
  unfold checkGroups Code.checkGroups
  rw [Positional.lastDigits_eq, List.map_map]
  apply List.map_congr_left
  intro j hJ
  rw [List.mem_range] at hJ
  have hNumber :
      (feed chk (List.replicate 8 0) ^^^ 1).toNat =
        code.feedZeros chk.toNat 8 ^^^ 1 := by
    rw [UInt64.toNat_xor, toNat_feed, List.map_replicate]
    rfl
  have hPower :
      (2 ^ code.width) ^ (8 - 1 - j) = 2 ^ ((7 - j) * 5) := by
    rw [← Nat.pow_mul, Nat.mul_comm]
    rfl
  rw [Function.comp_apply, toNat_checkGroup _ (by omega),
    hNumber, hPower]
  rfl

@[simp]
theorem length_checkGroups
    (chk : UInt64) :
    (checkGroups chk).length = 8 := by
  simp [checkGroups]

theorem lt_of_mem_checkGroups
    {chk : UInt64} :
    ∀ group ∈ checkGroups chk, group.toNat < 32 := by
  intro group hGroup
  have hMem := List.mem_map_of_mem (f := UInt8.toNat) hGroup
  rw [map_checkGroups] at hMem
  exact Positional.lt_of_mem_lastDigits (by decide) _ hMem

/- The groups of the checksum bring it to 1. -/
theorem feed_checkGroups
    (chk : UInt64) :
    feed chk (checkGroups chk) = 1 := by
  apply UInt64.toNat_inj.mp
  rw [toNat_feed, map_checkGroups]
  exact Code.feed_checkGroups fits_code _

/- No other eight groups do. -/
theorem eq_checkGroups
    {chk : UInt64}
    {groups : List UInt8}
    (hEight : groups.length = 8)
    (hGroups : ∀ group ∈ groups, group.toNat < 32)
    (hFeed : feed chk groups = 1) :
    groups = checkGroups chk := by
  have hNumber :
      code.feed chk.toNat (groups.map UInt8.toNat) = 1 := by
    rw [← toNat_feed, hFeed]
    rfl
  have hMap :
      groups.map UInt8.toNat =
        code.checkGroups 8 chk.toNat := by
    apply Code.eq_checkGroups fits_code
    · rw [List.length_map, hEight]
    · intro number hMem
      rcases List.mem_map.mp hMem with ⟨group, hGroup, rfl⟩
      exact hGroups group hGroup
    · exact hNumber
  rw [← map_checkGroups] at hMap
  exact List.map_injective_iff.mpr
    (fun byte other hEq => UInt8.toNat_inj.mp hEq) hMap

------------------------------------------------------------
-- The Separator
------------------------------------------------------------

theorem findSep_le
    (addr : List UInt8)
    (sep : Nat) :
    findSep addr sep ≤ sep := by
  induction sep with
  | zero => exact le_rfl
  | succ sep ih =>
      unfold findSep
      split_ifs
      · exact Nat.le_succ_of_le ih
      · exact le_rfl

/- A separator with none behind it is the one found. -/
theorem findSep_eq
    {addr : List UInt8}
    {sep : Nat}
    (hSep : sep = 0 ∨ addr.getD sep 0 = cChar ':')
    {last : Nat}
    (hLast : sep ≤ last)
    (hBehind :
      ∀ i, sep < i → i ≤ last → addr.getD i 0 ≠ cChar ':') :
    findSep addr last = sep := by
  induction last with
  | zero => exact (Nat.le_zero.mp hLast).symm
  | succ last ih =>
      unfold findSep
      rcases Nat.lt_or_ge sep (last + 1) with hLt | hGe
      · rw [if_pos (hBehind _ hLt le_rfl)]
        apply ih (by omega)
        intro i hI hI'
        exact hBehind i hI (by omega)
      · have hEq : sep = last + 1 := by omega
        rw [hEq] at hSep ⊢
        rcases hSep with hZero | hHere
        · exact absurd hZero (Nat.succ_ne_zero last)
        · rw [if_neg (not_not.mpr hHere)]

------------------------------------------------------------
-- The Loop over the Digits
------------------------------------------------------------

theorem groupEnd_le
    {j : Nat}
    (hJ : j ≤ 34) :
    groupEnd j ≤ 22 := by
  simp only [groupEnd]
  split_ifs <;> omega

/- With at most 35 groups before the checksum all have room. -/
theorem decodeFrom_eq
    {addrLen i j : Nat}
    (hRoom : addrLen ≤ i + 8 ∨ j + (addrLen - 8 - i) ≤ 35)
    (str : List UInt8)
    {state : DecodeState}
    (hBuf : state.buf.length = 22) :
    decodeFrom addrLen i j str state =
      match str.mapM groupOf with
      | none => .error .rejected
      | some groups =>
          .ok
            { chk := feed state.chk groups
              buf :=
                putGroups state.buf j
                  (groups.take (addrLen - 8 - i)) } := by
  induction str generalizing i j state with
  | nil => simp [decodeFrom, putGroups, feed]
  | cons byte str ih =>
      rw [List.mapM_cons]
      unfold decodeFrom
      rw [← groupOf]
      rcases groupOf byte with _ | c
      · rfl
      · simp only [Option.bind_eq_bind, Option.bind_some]
        by_cases hEnd : addrLen ≤ i + 8
        · rw [if_pos hEnd, ih (by omega) (by exact hBuf)]
          have hNone : addrLen - 8 - i = 0 := by omega
          have hAlso : addrLen - 8 - (i + 1) = 0 := by omega
          rcases str.mapM groupOf with _ | groups
          · rfl
          · simp [hNone, hAlso, putGroups, feed]
        · have hRest := hRoom.resolve_left hEnd
          have hFits : groupEnd j ≤ 22 := groupEnd_le (by omega)
          have hTake :
              addrLen - 8 - i = addrLen - 8 - (i + 1) + 1 := by
            omega
          rw [if_neg hEnd, if_neg (by omega),
            ih (by omega) (by
              rw [BRBech32.length_putGroup]
              exact hBuf)]
          rcases str.mapM groupOf with _ | groups
          · rfl
          · simp [hTake, putGroups, feed]

------------------------------------------------------------
-- What Is Accepted
------------------------------------------------------------

/- The offset of the separator of an address. -/
def sepOf (addr : List UInt8) : Nat :=
  findSep addr addr.length

/- What `decodeData` does behind its checks. -/
def decodeDigits
    (addr : List UInt8) :
    Except DecodeError (List UInt8 × List UInt8) := do
  let state ←
    decodeFrom addr.length (sepOf addr + 1) 0
      (addr.drop (sepOf addr + 1))
      { chk := hrpChecksum (addr.take (sepOf addr))
        buf := List.replicate 22 0 }
  let bufLen := (addr.length - (sepOf addr + 8)) * 5 / 8
  if state.chk ≠ 1 ∨ bufLen ≠ 21 then .error .rejected
  else .ok ((addr.take (sepOf addr)).map toLower,
    state.buf.take bufLen)

theorem decodeData_eq
    (addr : List UInt8) :
    decodeData addr =
      if ¬ addr.all (fun byte =>
          33 ≤ byte && byte ≤ 126) then
        .error .rejected
      else if 11 < sepOf addr ∨
          addr.length < sepOf addr + 34 + 8 ∨
          (addr.any isUpper ∧ addr.any isLower) then
        .error .rejected
      else decodeDigits addr := rfl

/- The bytes of the groups before the checksum. -/
def dataOf (groups : List UInt8) : List UInt8 :=
  (putGroups (List.replicate 22 0) 0 groups).take 21

/-
  An address that is accepted if its checksum holds, by the
  groups of its data and of the checksum.
-/
structure Shaped
    (addr groups check : List UInt8) : Prop where
  visible : ∀ byte ∈ addr, 33 ≤ byte ∧ byte ≤ 126
  oneCase : ¬ (addr.any isUpper ∧ addr.any isLower)
  sep_le : sepOf addr ≤ 11
  digits :
    (addr.drop (sepOf addr + 1)).mapM groupOf =
      some (groups ++ check)
  eight : check.length = 8
  size : groups.length = 33 ∨ groups.length = 34

/- The checksum over the groups of an address. -/
def sumOf (addr groups : List UInt8) : UInt64 :=
  feed (hrpChecksum (addr.take (sepOf addr))) groups

namespace Shaped

variable {addr groups check : List UInt8}

theorem length_eq
    (hShaped : Shaped addr groups check) :
    addr.length = sepOf addr + groups.length + 9 := by
  have hLength :=
    (MapM.eq_some_iff.mp hShaped.digits).length_eq
  have hSize := hShaped.size
  rw [List.length_drop, List.length_append, hShaped.eight]
    at hLength
  omega

theorem groups_lt
    (hShaped : Shaped addr groups check) :
    ∀ group ∈ groups ++ check, group.toNat < 32 :=
  BRBech32.lt_of_groups hShaped.digits

end Shaped

theorem decodeData_of_shaped
    {addr groups check : List UInt8}
    (hShaped : Shaped addr groups check) :
    decodeData addr =
      if sumOf addr (groups ++ check) = 1 then
        .ok ((addr.take (sepOf addr)).map toLower,
          dataOf groups)
      else .error .rejected := by
  have hLength := hShaped.length_eq
  have hSep := hShaped.sep_le
  have hSize := hShaped.size
  have hVisible :
      (addr.all fun byte => 33 ≤ byte && byte ≤ 126) =
        true := by
    rw [List.all_eq_true]
    intro byte hByte
    simpa using hShaped.visible byte hByte
  have hLimits :
      ¬ (11 < sepOf addr ∨ addr.length < sepOf addr + 34 + 8 ∨
        (addr.any isUpper = true ∧
          addr.any isLower = true)) := by
    rintro (hBad | hBad | hBad)
    · omega
    · omega
    · exact hShaped.oneCase hBad
  have hTake : addr.length - 8 - (sepOf addr + 1) =
      groups.length := by
    omega
  have hBufLen :
      (addr.length - (sepOf addr + 8)) * 5 / 8 = 21 := by
    omega
  rw [decodeData_eq, if_neg (not_not.mpr hVisible),
    if_neg hLimits]
  unfold decodeDigits
  rw [decodeFrom_eq (by omega) _ (by simp), hShaped.digits]
  simp only [hTake, hBufLen, List.take_left']
  by_cases hSum : sumOf addr (groups ++ check) = 1
  · rw [if_pos hSum]
    change (if _ then _ else _) = _
    rw [if_neg]
    · rfl
    · rintro (hBad | hBad)
      · exact hBad hSum
      · exact hBad rfl
  · rw [if_neg hSum]
    change (if _ then _ else _) = _
    exact if_pos (Or.inl hSum)

theorem shaped_of_decodeData
    {addr hrp data : List UInt8}
    (hDecode : decodeData addr = .ok (hrp, data)) :
    ∃ groups check,
      Shaped addr groups check ∧
        sumOf addr (groups ++ check) = 1 ∧
        hrp = (addr.take (sepOf addr)).map toLower ∧
        data = dataOf groups := by
  have hRun := hDecode
  rw [decodeData_eq] at hRun
  split_ifs at hRun with hVisible hLimits
  unfold decodeDigits at hRun
  rw [Faults.bind_eq_ok_iff] at hRun
  rcases hRun with ⟨state, hLoop, hEnd⟩
  dsimp only at hEnd
  split_ifs at hEnd with hBad
  have hBufLen :
      (addr.length - (sepOf addr + 8)) * 5 / 8 = 21 := by
    by_contra hNot
    exact hBad (Or.inr hNot)
  rw [decodeFrom_eq (by omega) _ (by simp)] at hLoop
  rcases hGroups :
    (addr.drop (sepOf addr + 1)).mapM groupOf with _ | all
  · rw [hGroups] at hLoop
    cases hLoop
  · have hLength := (MapM.eq_some_iff.mp hGroups).length_eq
    rw [List.length_drop] at hLength
    have hShaped :
        Shaped addr (all.take (all.length - 8))
          (all.drop (all.length - 8)) := by
      constructor
      · intro byte hByte
        have hAll := List.all_eq_true.mp hVisible byte hByte
        simpa using hAll
      · intro hCase
        exact hLimits (Or.inr (Or.inr hCase))
      · by_contra hNot
        exact hLimits (Or.inl (by omega))
      · rw [List.take_append_drop, hGroups]
      · rw [List.length_drop]
        omega
      · rw [List.length_take]
        omega
    refine ⟨_, _, hShaped, ?_⟩
    rw [decodeData_of_shaped hShaped] at hDecode
    split_ifs at hDecode with hSum
    cases hDecode
    exact ⟨hSum, rfl, rfl⟩

------------------------------------------------------------
-- The Bytes of an Address
------------------------------------------------------------

theorem length_dataOf
    (groups : List UInt8) :
    (dataOf groups).length = 21 := by
  simp [dataOf]

theorem bit_dataOf
    {groups : List UInt8}
    (hSize : groups.length ≤ 34)
    (k : Nat) :
    bit 8 (dataOf groups) k =
      (decide (k < 8 * 21) && bit 5 groups k) := by
  rw [dataOf, bit_take (by decide),
    BRBech32.bit_putGroups (by simp; omega),
    bit_replicate_zero, Bool.false_or,
    decide_eq_true (by omega : 5 * 0 ≤ k), Bool.true_and,
    Nat.mul_zero, Nat.sub_zero]

/- With 34 groups these are the bytes of a program. -/
theorem dataOf_eq
    {groups : List UInt8}
    (hSize : groups.length = 34) :
    dataOf groups = BRBech32.programOf groups := by
  have hByte :
      ∀ bytes : List UInt8, ∀ byte ∈ bytes,
        byte.toNat < 2 ^ 8 :=
    fun _ byte _ => byte.toNat_lt
  have hLength :=
    @BRBech32.length_programOf groups (by omega)
  apply eq_of_bits _ (hByte _) (hByte _)
  · intro k
    rw [bit_dataOf (by omega),
      BRBech32.bit_programOf (by omega), hSize]
  · rw [length_dataOf, hLength, hSize]

theorem dataOf_groupsOf
    {data : List UInt8}
    (hData : data.length = 21) :
    dataOf (groupsOf data) = data := by
  have hLength := BRBech32.length_groupsOf data
  rw [dataOf_eq (by omega)]
  exact BRBech32.programOf_groupsOf (by omega)

/- The groups come back if the last two bits are zero. -/
theorem groupsOf_dataOf_iff
    {groups : List UInt8}
    (hSize : groups.length = 34)
    (hGroups : ∀ group ∈ groups, group.toNat < 32) :
    groupsOf (dataOf groups) = groups ↔
      (groups.getLastD 0).toNat % 4 = 0 := by
  have hNe : groups ≠ [] := by
    apply List.ne_nil_of_length_pos
    omega
  rw [dataOf_eq hSize,
    BRBech32.groupsOf_programOf_iff hNe (by omega) hGroups,
    BRBech32.ZeroPadding, hSize]
  simp

------------------------------------------------------------
-- Encoding
------------------------------------------------------------

/- The text over the groups of some data. -/
def text (hrp groups : List UInt8) : List UInt8 :=
  hrp ++ cChar ':' ::
    (groups ++ checkGroups (feed (hrpChecksum hrp) groups)
    ).map char

theorem encodeData_eq
    {hrp data : List UInt8}
    (hHrp : BRBech32.IsHrp hrp)
    (hShort : hrp.length ≤ 13)
    (hData : data.length = 21) :
    encodeData hrp data = some (text hrp (groupsOf data)) := by
  have hAll :
      (hrp.all fun byte =>
        33 ≤ byte && byte ≤ 126 && !isUpper byte) = true := by
    rw [List.all_eq_true]
    intro byte hByte
    rcases hHrp byte hByte with ⟨hLow, hHigh, hCase⟩
    simp [hLow, hHigh, hCase]
  unfold encodeData
  rw [guard_pos ⟨hShort, hAll⟩, guard_pos hData]
  rfl

/- The low bits of a character do not depend on its case. -/
theorem hrpChecksum_toLower
    (hrp : List UInt8) :
    hrpChecksum (hrp.map toLower) = hrpChecksum hrp := by
  have hAll :
      ∀ n < 256,
        toLower (UInt8.ofNat n) &&& (0x1f : UInt8) =
          UInt8.ofNat n &&& (0x1f : UInt8) := by
    decide +kernel
  have hMap :
      (hrp.map toLower).map
          (fun byte => byte &&& (0x1f : UInt8)) =
        hrp.map fun byte => byte &&& (0x1f : UInt8) := by
    rw [List.map_map]
    apply List.map_congr_left
    intro byte _
    have hEntry := hAll byte.toNat byte.toNat_lt
    rwa [UInt8.ofNat_toNat] at hEntry
  rw [hrpChecksum, hMap, hrpChecksum]

namespace Shaped

variable {addr groups check : List UInt8}

/- An address by its parts. -/
theorem split
    (hShaped : Shaped addr groups check) :
    addr =
      addr.take (sepOf addr) ++ addr.getD (sepOf addr) 0 ::
        addr.drop (sepOf addr + 1) := by
  have hLength := hShaped.length_eq
  have hLt : sepOf addr < addr.length := by omega
  rw [List.getD_eq_getElem _ _ hLt, List.getElem_cons_drop,
    List.take_append_drop]

theorem isHrp
    (hShaped : Shaped addr groups check) :
    BRBech32.IsHrp ((addr.take (sepOf addr)).map toLower) := by
  apply BRBech32.isHrp_toLower
  intro byte hByte
  exact hShaped.visible byte (List.mem_of_mem_take hByte)

theorem encodeData_eq
    (hShaped : Shaped addr groups check) :
    encodeData ((addr.take (sepOf addr)).map toLower)
        (dataOf groups) =
      some (text ((addr.take (sepOf addr)).map toLower)
        (groupsOf (dataOf groups))) := by
  have hSep := hShaped.sep_le
  apply BRBCashAddr.encodeData_eq hShaped.isHrp
  · rw [List.length_map, List.length_take]
    omega
  · exact length_dataOf groups

/- The digits of an address are the characters of groups. -/
theorem map_toLower_digits
    (hShaped : Shaped addr groups check) :
    (addr.drop (sepOf addr + 1)).map toLower =
      (groups ++ check).map char :=
  (BRBech32.map_char_of_groups hShaped.digits).symm

theorem check_eq
    (hShaped : Shaped addr groups check)
    (hSum : sumOf addr (groups ++ check) = 1) :
    check =
      checkGroups
        (feed (hrpChecksum (addr.take (sepOf addr))) groups) := by
  apply eq_checkGroups hShaped.eight
  · intro group hGroup
    exact hShaped.groups_lt group
      (List.mem_append_right _ hGroup)
  · rw [← feed_append]
    exact hSum

end Shaped

theorem toLower_eq_separator_iff
    (byte : UInt8) :
    toLower byte = cChar ':' ↔ byte = cChar ':' := by
  have hAll :
      ∀ n < 256,
        toLower (UInt8.ofNat n) = cChar ':' ↔
          UInt8.ofNat n = cChar ':' := by
    decide +kernel
  have hByte := hAll byte.toNat byte.toNat_lt
  rwa [UInt8.ofNat_toNat] at hByte

/-
  Whether an address has a separator with 42 digits behind it,
  and its padding is zero.
-/
def Canonical (addr : List UInt8) : Prop :=
  addr.getD (sepOf addr) 0 = cChar ':' ∧
    addr.length = sepOf addr + 43 ∧
    ((groupOf (addr.getD (sepOf addr + 34) 0)).getD 0).toNat
      % 4 = 0

instance (addr : List UInt8) : Decidable (Canonical addr) :=
  inferInstanceAs (Decidable (_ ∧ _ ∧ _))

namespace Shaped

variable {addr groups check : List UInt8}

theorem getD_group
    (hShaped : Shaped addr groups check)
    (hSize : groups.length = 34) :
    (groupOf (addr.getD (sepOf addr + 34) 0)).getD 0 =
      groups.getLastD 0 := by
  have hLength := hShaped.length_eq
  have hLt : sepOf addr + 34 < addr.length := by omega
  have hByte :
      (addr.drop (sepOf addr + 1))[33]? =
        some (addr.getD (sepOf addr + 34) 0) := by
    rw [List.getElem?_drop, List.getD_eq_getElem _ _ hLt,
      List.getElem?_eq_getElem (by omega)]
  have hGroup := MapM.getElem?_eq hShaped.digits hByte
  rw [← hGroup, List.getElem?_append_left (by omega),
    List.getLastD_eq_getLast?, List.getLast?_eq_getElem?,
    hSize]

theorem canonical_iff
    (hShaped : Shaped addr groups check) :
    Canonical addr ↔
      addr.getD (sepOf addr) 0 = cChar ':' ∧
        groups.length = 34 ∧
        (groups.getLastD 0).toNat % 4 = 0 := by
  have hLength := hShaped.length_eq
  have hSize :
      addr.length = sepOf addr + 43 ↔ groups.length = 34 := by
    omega
  rw [Canonical, hSize]
  constructor
  · rintro ⟨hColon, hGroups, hPadding⟩
    rw [hShaped.getD_group hGroups] at hPadding
    exact ⟨hColon, hGroups, hPadding⟩
  · rintro ⟨hColon, hGroups, hPadding⟩
    rw [← hShaped.getD_group hGroups] at hPadding
    exact ⟨hColon, hGroups, hPadding⟩

/- Whether an address is the text over its own groups. -/
theorem text_eq_toLower_iff
    (hShaped : Shaped addr groups check)
    (hSum : sumOf addr (groups ++ check) = 1) :
    text ((addr.take (sepOf addr)).map toLower)
        (groupsOf (dataOf groups)) = addr.map toLower ↔
      addr.getD (sepOf addr) 0 = cChar ':' ∧
        groupsOf (dataOf groups) = groups := by
  have hCheck := hShaped.check_eq hSum
  have hLower :
      addr.map toLower =
        (addr.take (sepOf addr)).map toLower ++
          toLower (addr.getD (sepOf addr) 0) ::
            (groups ++ check).map char := by
    conv_lhs => rw [hShaped.split]
    rw [List.map_append, List.map_cons,
      hShaped.map_toLower_digits]
  rw [hLower, text]
  constructor
  · intro hEq
    rcases List.cons.inj (List.append_cancel_left hEq) with
      ⟨hColon, hChars⟩
    have hGroups :=
      BRBech32.map_char_inj (by
        intro group hGroup
        rcases List.mem_append.mp hGroup with hHere | hRest
        · exact BRBech32.lt_of_mem_groupsOf _ group hHere
        · exact lt_of_mem_checkGroups group hRest)
        hShaped.groups_lt hChars
    have hEight :
        (checkGroups
          (feed (hrpChecksum
            ((addr.take (sepOf addr)).map toLower))
            (groupsOf (dataOf groups)))).length =
          check.length := by
      rw [length_checkGroups, hShaped.eight]
    exact ⟨(toLower_eq_separator_iff _).mp hColon.symm,
      (List.append_inj' hGroups hEight).1⟩
  · rintro ⟨hColon, hGroups⟩
    rw [hGroups, hColon, hrpChecksum_toLower, ← hCheck]
    rfl

end Shaped

/-
  An address that is accepted comes back in its lower-case form
  just if it is canonical.
-/
theorem encodeData_eq_toLower_iff
    {addr hrp data : List UInt8}
    (hDecode : decodeData addr = .ok (hrp, data)) :
    encodeData hrp data = some (addr.map toLower) ↔
      Canonical addr := by
  rcases shaped_of_decodeData hDecode with
    ⟨groups, check, hShaped, hSum, rfl, rfl⟩
  have hLt : ∀ group ∈ groups, group.toNat < 32 :=
    fun group hGroup =>
      hShaped.groups_lt group (List.mem_append_left _ hGroup)
  rw [hShaped.encodeData_eq, Option.some_inj,
    hShaped.text_eq_toLower_iff hSum, hShaped.canonical_iff]
  apply and_congr_right
  intro _
  constructor
  · intro hGroups
    have hSize : groups.length = 34 := by
      rw [← hGroups, BRBech32.length_groupsOf, length_dataOf]
    exact ⟨hSize,
      (groupsOf_dataOf_iff hSize hLt).mp hGroups⟩
  · rintro ⟨hSize, hPadding⟩
    exact (groupsOf_dataOf_iff hSize hLt).mpr hPadding

------------------------------------------------------------
-- Spellings
------------------------------------------------------------

/- The letter case that a text is brought into. -/
inductive LetterCase where
  | lower
  | upper
deriving DecidableEq

namespace LetterCase

def apply : LetterCase → UInt8 → UInt8
  | lower => toLower
  | upper => toUpper

/- Whether a byte is a letter of the other case. -/
def isOther : LetterCase → UInt8 → Bool
  | lower => isUpper
  | upper => isLower

end LetterCase

/- A visible byte that is no letter of the other case. -/
def Fits (letters : LetterCase) (byte : UInt8) : Prop :=
  33 ≤ byte ∧ byte ≤ 126 ∧ letters.isOther byte = false

instance (letters : LetterCase) (byte : UInt8) :
    Decidable (Fits letters byte) :=
  inferInstanceAs (Decidable (_ ∧ _ ∧ _))

/- The characters of a group in both cases. -/
theorem char_spec
    {group : UInt8}
    (hGroup : group.toNat < 32)
    (letters : LetterCase) :
    groupOf (letters.apply (char group)) = some group ∧
      Fits letters (letters.apply (char group)) := by
  have hAll :
      ∀ n < 32,
        groupOf (letters.apply (char (UInt8.ofNat n))) =
            some (UInt8.ofNat n) ∧
          Fits letters
            (letters.apply (char (UInt8.ofNat n))) := by
    cases letters <;> decide +kernel
  have hByte := hAll group.toNat hGroup
  rwa [UInt8.ofNat_toNat] at hByte

/- The characters of some groups in a letter case. -/
def spell
    (letters : LetterCase)
    (groups : List UInt8) : List UInt8 :=
  (groups.map char).map letters.apply

theorem spell_groups
    (letters : LetterCase)
    {groups : List UInt8}
    (hGroups : ∀ group ∈ groups, group.toNat < 32) :
    (spell letters groups).mapM groupOf = some groups := by
  apply MapM.eq_some_iff.mpr
  rw [spell, List.map_map, List.forall₂_map_left_iff,
    List.forall₂_same]
  intro group hGroup
  exact (char_spec (hGroups group hGroup) letters).1

theorem fits_spell
    (letters : LetterCase)
    {groups : List UInt8}
    (hGroups : ∀ group ∈ groups, group.toNat < 32) :
    ∀ byte ∈ spell letters groups, Fits letters byte := by
  intro byte hByte
  rw [spell, List.map_map] at hByte
  rcases List.mem_map.mp hByte with ⟨group, hGroup, rfl⟩
  exact (char_spec (hGroups group hGroup) letters).2

/- A string that fits a letter case has no mixture of both. -/
theorem oneCase_of_fits
    {letters : LetterCase}
    {addr : List UInt8}
    (hFits : ∀ byte ∈ addr, Fits letters byte) :
    ¬ (addr.any isUpper ∧ addr.any isLower) := by
  rintro ⟨hUpper, hLower⟩
  cases letters with
  | lower =>
      rcases List.any_eq_true.mp hUpper with
        ⟨byte, hByte, hCase⟩
      have hOther : isUpper byte = false :=
        (hFits byte hByte).2.2
      rw [hOther] at hCase
      cases hCase
  | upper =>
      rcases List.any_eq_true.mp hLower with
        ⟨byte, hByte, hCase⟩
      have hOther : isLower byte = false :=
        (hFits byte hByte).2.2
      rw [hOther] at hCase
      cases hCase

/- A separator is none of the digits. -/
theorem separator_not_mem
    {str groups : List UInt8}
    (hDigits : str.mapM groupOf = some groups) :
    cChar ':' ∉ str := by
  intro hMem
  rcases List.getElem?_of_mem hMem with ⟨position, hAt⟩
  have hValue := MapM.getElem?_eq hDigits hAt
  have hNone : groupOf (cChar ':') = none := by decide
  have hLength := (MapM.eq_some_iff.mp hDigits).length_eq
  have hLt : position < groups.length := by
    have hPosition := (List.getElem?_eq_some_iff.mp hAt).1
    omega
  rw [hNone, List.getElem?_eq_getElem hLt] at hValue
  cases hValue

theorem getD_ne_separator
    {str groups : List UInt8}
    (hDigits : str.mapM groupOf = some groups)
    (i : Nat) :
    str.getD i 0 ≠ cChar ':' := by
  intro hColon
  by_cases hIn : i < str.length
  · rw [List.getD_eq_getElem _ _ hIn] at hColon
    apply separator_not_mem hDigits
    rw [← hColon]
    exact List.getElem_mem hIn
  · rw [List.getD_eq_default _ _ (by omega)] at hColon
    exact absurd hColon (by decide)

theorem sepOf_append
    {front str groups : List UInt8}
    (hDigits : str.mapM groupOf = some groups) :
    sepOf (front ++ cChar ':' :: str) = front.length := by
  apply findSep_eq
  · right
    rw [List.getD_append_right _ _ _ _ le_rfl, Nat.sub_self]
    rfl
  · rw [List.length_append]
    omega
  · intro i hI _
    rw [List.getD_append_right _ _ _ _ (by omega)]
    rcases hIndex : i - front.length with _ | index
    · omega
    · rw [List.getD_cons_succ]
      exact getD_ne_separator hDigits index

theorem sepOf_digits
    {str groups : List UInt8}
    (hDigits : str.mapM groupOf = some groups) :
    sepOf str = 0 := by
  apply findSep_eq (Or.inl rfl) (Nat.zero_le _)
  intro i _ _
  exact getD_ne_separator hDigits i

end BRBCashAddr

end PlusWallet
