import PlusWallet.Library.MapM
import PlusWallet.Address.BRAddress
import PlusWallet.Address.Regroup
import PlusWallet.Address.Polymod

/-
  What `BRBech32Decode` accepts, and what comes back when it
  is encoded.

  Main declarations:
    * `Parses`, `decode_eq_some_iff`
    * `encode_programData`
    * `PaddingIsZero`
    * `exact_of_paddingIsZero`
-/

namespace PlusWallet

namespace BRBech32

open Bits

------------------------------------------------------------
-- The Alphabet
------------------------------------------------------------

/- The group of a character in either case. -/
def groupOf (byte : UInt8) : Option UInt8 :=
  digit (toLower byte)

theorem groupOf_char
    {group : UInt8}
    (hGroup : group.toNat < 32) :
    groupOf (char group) = some group := by
  have hAll :
      ∀ n < 32, groupOf (char (UInt8.ofNat n)) =
        some (UInt8.ofNat n) := by
    decide +kernel
  have hByte := hAll group.toNat hGroup
  rwa [UInt8.ofNat_toNat] at hByte

/- The characters of groups are visible and no separators. -/
theorem char_visible
    {group : UInt8}
    (hGroup : group.toNat < 32) :
    33 ≤ char group ∧ char group ≤ 126 ∧
      isUpper (char group) = false ∧
      char group ≠ cChar '1' := by
  have hAll :
      ∀ n < 32,
        33 ≤ char (UInt8.ofNat n) ∧
          char (UInt8.ofNat n) ≤ 126 ∧
          isUpper (char (UInt8.ofNat n)) = false ∧
          char (UInt8.ofNat n) ≠ cChar '1' := by
    decide +kernel
  have hByte := hAll group.toNat hGroup
  rwa [UInt8.ofNat_toNat] at hByte

theorem char_of_groupOf
    {byte group : UInt8}
    (hGroup : groupOf byte = some group) :
    char group = toLower byte ∧ group.toNat < 32 := by
  have hAll :
      ∀ n < 256, ∀ group,
        groupOf (UInt8.ofNat n) = some group →
          char group = toLower (UInt8.ofNat n) ∧
            group.toNat < 32 := by
    have hTable :
        ∀ n < 256,
          (groupOf (UInt8.ofNat n)).all (fun group =>
            char group == toLower (UInt8.ofNat n) &&
              decide (group.toNat < 32)) = true := by
      decide +kernel
    intro n hN group hSome
    have hEntry := hTable n hN
    rw [hSome] at hEntry
    simpa using hEntry
  have hByte := hAll byte.toNat byte.toNat_lt group
  rw [UInt8.ofNat_toNat] at hByte
  exact hByte hGroup

/- A string of characters is its groups. -/
theorem map_char_of_groups
    {str groups : List UInt8}
    (hGroups : str.mapM groupOf = some groups) :
    groups.map char = str.map toLower := by
  have hAll := MapM.eq_some_iff.mp hGroups
  clear hGroups
  induction hAll with
  | nil => rfl
  | cons hFound _ ih =>
      rw [List.map_cons, List.map_cons, ih,
        (char_of_groupOf hFound).1]

theorem lt_of_groups
    {str groups : List UInt8}
    (hGroups : str.mapM groupOf = some groups) :
    ∀ group ∈ groups, group.toNat < 32 := by
  have hAll := MapM.eq_some_iff.mp hGroups
  clear hGroups
  induction hAll with
  | nil => simp
  | cons hFound _ ih =>
      intro group hGroup
      rcases List.mem_cons.mp hGroup with rfl | hRest
      · exact (char_of_groupOf hFound).2
      · exact ih group hRest

theorem groups_map_char
    {groups : List UInt8}
    (hGroups : ∀ group ∈ groups, group.toNat < 32) :
    (groups.map char).mapM groupOf = some groups := by
  apply MapM.eq_some_iff.mpr
  rw [List.forall₂_map_left_iff, List.forall₂_same]
  intro group hGroup
  exact groupOf_char (hGroups group hGroup)

/- Different groups have different characters. -/
theorem map_char_inj
    {groups other : List UInt8}
    (hGroups : ∀ group ∈ groups, group.toNat < 32)
    (hOther : ∀ group ∈ other, group.toNat < 32)
    (hEq : groups.map char = other.map char) :
    groups = other := by
  have hSome := groups_map_char hGroups
  rw [hEq, groups_map_char hOther] at hSome
  exact (Option.some.inj hSome).symm

------------------------------------------------------------
-- The Separator
------------------------------------------------------------

theorem findSep_le
    (addr : List UInt8)
    (sep : Nat) :
    findSep addr sep ≤ sep := by
  induction sep with
  | zero => exact le_rfl
  | succ sep ih =>
      rw [findSep]
      split_ifs
      · exact Nat.le_succ_of_le ih
      · exact le_rfl

theorem getD_findSep
    {addr : List UInt8}
    {sep : Nat}
    (hSome : 1 ≤ findSep addr sep) :
    addr.getD (findSep addr sep) 0 = cChar '1' := by
  induction sep with
  | zero => exact absurd hSome (by simp [findSep])
  | succ sep ih =>
      rw [findSep] at hSome ⊢
      split_ifs at hSome ⊢ with hOther
      · exact ih hSome
      · exact not_not.mp hOther

/- The separator that nothing follows that is one is found. -/
theorem findSep_eq
    {front tail : List UInt8}
    (hFront : front ≠ [])
    (hTail : cChar '1' ∉ tail)
    (rest : Nat) :
    findSep (front ++ cChar '1' :: tail)
        (front.length + rest) = front.length := by
  have hLength := List.length_pos_iff.mpr hFront
  induction rest with
  | zero =>
      rcases hSucc : front.length with _ | sep
      · omega
      · rw [Nat.add_zero, findSep, if_neg]
        rw [not_not, List.getD_append_right _ _ _ _ (by omega),
          hSucc, Nat.sub_self]
        rfl
  | succ rest ih =>
      rw [← Nat.add_assoc, findSep, if_pos, ih]
      rw [List.getD_append_right _ _ _ _ (by omega)]
      have hIndex :
          front.length + rest + 1 - front.length =
            rest + 1 := by
        omega
      rw [hIndex, List.getD_cons_succ]
      intro hOne
      apply hTail
      by_cases hIn : rest < tail.length
      · rw [List.getD_eq_getElem _ _ hIn] at hOne
        rw [← hOne]
        exact List.getElem_mem hIn
      · rw [List.getD_eq_default _ _ (by omega)] at hOne
        exact absurd hOne (by decide)

/- An address is what its separator divides. -/
theorem split_findSep
    {addr : List UInt8}
    (hSome : 1 ≤ findSep addr addr.length) :
    addr =
      addr.take (findSep addr addr.length) ++
        cChar '1' ::
          addr.drop (findSep addr addr.length + 1) := by
  have hOne := getD_findSep hSome
  have hLt : findSep addr addr.length < addr.length := by
    by_contra hGe
    rw [List.getD_eq_default _ _ (by omega)] at hOne
    exact absurd hOne (by decide)
  rw [List.getD_eq_getElem _ _ hLt] at hOne
  rw [← hOne, List.getElem_cons_drop,
    List.take_append_drop]

------------------------------------------------------------
-- The Loop over the Digits
------------------------------------------------------------

/- The loop behind the version. -/
theorem decodeFrom_eq
    {addrLen sep i : Nat}
    (hI : sep + 2 ≤ i)
    (str : List UInt8)
    (state : DecodeState) :
    decodeFrom addrLen sep i str state =
      (str.mapM groupOf).map fun groups =>
        { chk := feed state.chk groups
          ver := state.ver
          buf :=
            putGroups state.buf (i - (sep + 2))
              (groups.take (addrLen - 6 - i)) } := by
  induction str generalizing i state with
  | nil => simp [decodeFrom, putGroups, feed]
  | cons byte str ih =>
      rw [decodeFrom, List.mapM_cons, ← groupOf]
      rcases groupOf byte with _ | c
      · rfl
      · simp only [Option.bind_eq_bind, Option.bind_some]
        rw [ih (by omega), if_neg (by omega)]
        rcases str.mapM groupOf with _ | groups
        · rfl
        · by_cases hEnd : addrLen ≤ i + 6
          · have hNone : addrLen - 6 - i = 0 := by omega
            have hAlso : addrLen - 6 - (i + 1) = 0 := by omega
            simp [hEnd, hNone, hAlso, putGroups, feed]
          · have hTake :
                addrLen - 6 - i = addrLen - 6 - (i + 1) + 1 := by
              omega
            have hNext :
                i + 1 - (sep + 2) = i - (sep + 2) + 1 := by
              omega
            simp [hEnd, hTake, hNext, putGroups, feed]

/- The loop from the version on. -/
theorem decodeFrom_version
    {addrLen sep : Nat}
    (byte : UInt8)
    (str : List UInt8)
    (state : DecodeState) :
    decodeFrom addrLen sep (sep + 1) (byte :: str) state =
      (groupOf byte).bind fun ver =>
        (str.mapM groupOf).map fun groups =>
          { chk := feed state.chk (ver :: groups)
            ver := ver
            buf :=
              putGroups state.buf 0
                (groups.take (addrLen - 6 - (sep + 2))) } := by
  rw [decodeFrom, ← groupOf]
  rcases groupOf byte with _ | ver
  · rfl
  · simp only [Option.bind_eq_bind, Option.bind_some, if_true]
    rw [decodeFrom_eq (by omega), Nat.sub_self]
    rfl

------------------------------------------------------------
-- What Is Accepted
------------------------------------------------------------

theorem guard_pos
    {condition : Prop}
    [Decidable condition]
    (hCondition : condition) :
    (guard condition : Option Unit) = some () :=
  if_pos hCondition

theorem of_guard
    {condition : Prop}
    [Decidable condition]
    {result : Unit}
    (hGuard : guard condition = some result) :
    condition := by
  by_contra hNot
  rw [guard, if_neg hNot] at hGuard
  cases hGuard

/- The opcode of a version. -/
def versionOp (ver : UInt8) : UInt8 :=
  if ver = 0 then OP_0 else ver + OP_1 - 1

/- The bytes of some groups, without what is left over. -/
def programOf (groups : List UInt8) : List UInt8 :=
  (putGroups (List.replicate 52 0) 0 groups).take
    (groups.length * 5 / 8)

/- `data42` for a version and some groups. -/
def dataOf (ver : UInt8) (groups : List UInt8) : List UInt8 :=
  versionOp ver :: UInt8.ofNat (groups.length * 5 / 8) ::
    programOf groups

/-
  An address that is accepted, by its parts: the human
  readable part, and the digits of the version, of the program
  and of the checksum.
-/
structure Parses
    (addr front tail : List UInt8)
    (ver : UInt8)
    (groups check : List UInt8) : Prop where
  split : addr = front ++ cChar '1' :: tail
  digits : tail.mapM groupOf = some (ver :: groups ++ check)
  six : check.length = 6
  visible : ∀ byte ∈ addr, 33 ≤ byte ∧ byte ≤ 126
  oneCase : ¬ (addr.any isUpper ∧ addr.any isLower)
  length_le : addr.length ≤ 90
  nonempty : front ≠ []
  sum :
    feed (hrpChecksum (front.map toLower) front)
      (ver :: groups ++ check) = 1
  version : ver ≤ 16
  programLength :
    2 ≤ groups.length * 5 / 8 ∧ groups.length * 5 / 8 ≤ 40

namespace Parses

variable {addr front tail groups check : List UInt8}
variable {ver : UInt8}

theorem length_tail
    (hParses : Parses addr front tail ver groups check) :
    tail.length = groups.length + 7 := by
  have hLength :=
    (MapM.eq_some_iff.mp hParses.digits).length_eq
  simpa [hParses.six, Nat.add_assoc] using hLength

theorem separator_not_mem
    (hParses : Parses addr front tail ver groups check) :
    cChar '1' ∉ tail := by
  intro hMem
  rcases List.getElem?_of_mem hMem with ⟨position, hAt⟩
  have hValue := MapM.getElem?_eq hParses.digits hAt
  have hLt : position < (ver :: groups ++ check).length := by
    have hLength := hParses.length_tail
    have hPosition := (List.getElem?_eq_some_iff.mp hAt).1
    simp [hParses.six]
    omega
  rw [List.getElem?_eq_getElem hLt] at hValue
  have hNone : groupOf (cChar '1') = none := by decide
  rw [hNone] at hValue
  simp at hValue

theorem findSep_eq
    (hParses : Parses addr front tail ver groups check) :
    findSep addr addr.length = front.length := by
  have hFound :=
    BRBech32.findSep_eq hParses.nonempty
      hParses.separator_not_mem (tail.length + 1)
  rw [hParses.split, List.length_append, List.length_cons]
  exact hFound

theorem groups_lt
    (hParses : Parses addr front tail ver groups check) :
    ∀ group ∈ ver :: groups ++ check, group.toNat < 32 :=
  lt_of_groups hParses.digits

end Parses

theorem decode_of_parses
    {addr front tail groups check : List UInt8}
    {ver : UInt8}
    (hParses : Parses addr front tail ver groups check) :
    decode addr =
      some (front.map toLower, dataOf ver groups) := by
  have hSep := hParses.findSep_eq
  have hTail := hParses.length_tail
  have hAddr : addr.length = front.length + tail.length + 1 := by
    rw [hParses.split, List.length_append, List.length_cons]
    omega
  have hFront := List.length_pos_iff.mpr hParses.nonempty
  have hLimit := hParses.length_le
  have hVisible :
      (addr.all fun byte => 33 ≤ byte && byte ≤ 126) =
        true := by
    rw [List.all_eq_true]
    intro byte hByte
    simpa using hParses.visible byte hByte
  have hTake : addr.take front.length = front := by
    rw [hParses.split, List.take_left']
    rfl
  have hDrop : addr.drop (front.length + 1) = tail := by
    rw [hParses.split, ← List.drop_drop, List.drop_left']
    · rfl
    · rfl
  have hLen :
      addr.length - (front.length + 2 + 6) = groups.length := by
    omega
  have hGroups :
      addr.length - 6 - (front.length + 2) = groups.length := by
    omega
  rcases hBytes : tail with _ | ⟨byte, str⟩
  · rw [hBytes] at hTail
    simp at hTail
  · have hDigits := hParses.digits
    rw [hBytes, List.cons_append, MapM.eq_some_iff,
      List.forall₂_cons] at hDigits
    rcases hDigits with ⟨hVer, hRest⟩
    rw [← MapM.eq_some_iff] at hRest
    simp only [decode, hSep, hVisible, hTake, hDrop, hBytes,
      decodeFrom_version, hVer, hRest, hGroups, hLen]
    have hSum := hParses.sum
    rw [List.cons_append] at hSum
    have hVersion := hParses.version
    have hProgram := hParses.programLength
    have hCase := hParses.oneCase
    have hGuard :
        ¬ (addr.length < 8 ∨ 90 < addr.length ∨
          front.length < 1 ∨
          addr.length < front.length + 2 + 6 ∨
          addr.any isUpper = true ∧
            addr.any isLower = true) := by
      rintro (hBad | hBad | hBad | hBad | hBad)
      · omega
      · omega
      · omega
      · omega
      · exact hCase hBad
    rw [guard_pos trivial, guard_pos hGuard]
    simp only [Option.bind_eq_bind, Option.bind_some,
      Option.map_some]
    rw [guard_pos]
    · rw [List.take_left' rfl]
      rfl
    · rintro (hBad | hBad | hBad)
      · exact hBad hSum
      · exact absurd hVersion (UInt8.not_le.mpr hBad)
      · omega

theorem parses_of_decode
    {addr hrp data : List UInt8}
    (hDecode : decode addr = some (hrp, data)) :
    ∃ front tail ver groups check,
      Parses addr front tail ver groups check ∧
        hrp = front.map toLower ∧ data = dataOf ver groups := by
  simp only [decode, Option.bind_eq_bind,
    Option.bind_eq_some_iff] at hDecode
  rcases hDecode with
    ⟨_, hVisible, _, hGuard, state, hLoop, _, hEnd, hResult⟩
  have hVisible := of_guard hVisible
  have hGuard := of_guard hGuard
  have hEnd := of_guard hEnd
  set sep := findSep addr addr.length with hSep
  have hSome : 1 ≤ findSep addr addr.length := by omega
  have hSplit := split_findSep hSome
  rw [← hSep] at hSplit
  have hFront : (addr.take sep).length = sep := by
    rw [List.length_take]
    omega
  rcases hTail : addr.drop (sep + 1) with _ | ⟨byte, str⟩
  · have hLength := congrArg List.length hTail
    rw [List.length_drop, List.length_nil] at hLength
    omega
  · have hLength := congrArg List.length hTail
    rw [List.length_drop, List.length_cons] at hLength
    rw [hTail, decodeFrom_version, Option.bind_eq_some_iff]
      at hLoop
    rcases hLoop with ⟨ver, hVer, hLoop⟩
    rcases Option.map_eq_some_iff.mp hLoop with
      ⟨rest, hRest, rfl⟩
    have hCount :=
      (MapM.eq_some_iff.mp hRest).length_eq
    have hTake : addr.length - 6 - (sep + 2) =
        rest.length - 6 := by
      omega
    have hGroups :
        (rest.take (rest.length - 6)).length =
          rest.length - 6 := by
      rw [List.length_take]
      omega
    have hLen :
        addr.length - (sep + 2 + 6) = rest.length - 6 := by
      omega
    simp only [hTake, hLen] at hResult hEnd
    refine ⟨addr.take sep, byte :: str, ver,
      rest.take (rest.length - 6), rest.drop (rest.length - 6),
      ?_, ?_, ?_⟩
    · constructor
      · rw [← hTail]
        exact hSplit
      · rw [List.cons_append, List.take_append_drop]
        exact MapM.eq_some_iff.mpr
          (List.Forall₂.cons hVer (MapM.eq_some_iff.mp hRest))
      · rw [List.length_drop]
        omega
      · intro other hOther
        simpa using List.all_eq_true.mp hVisible other hOther
      · intro hBoth
        exact hGuard (by simp [hBoth])
      · omega
      · intro hNil
        rw [hNil] at hFront
        simp at hFront
        omega
      · rw [List.cons_append, List.take_append_drop]
        by_contra hSum
        exact hEnd (Or.inl hSum)
      · by_contra hVersion
        exact hEnd (Or.inr (Or.inl (UInt8.not_le.mp hVersion)))
      · rw [hGroups]
        omega
    · cases hResult
      rfl
    · cases hResult
      rw [dataOf, programOf, hGroups]
      rfl

------------------------------------------------------------
-- Encoding
------------------------------------------------------------

/- The text over a version and the groups of a program. -/
def text (hrp : List UInt8) (ver : UInt8) (groups : List UInt8) :
    List UInt8 :=
  hrp ++ cChar '1' ::
    (ver :: groups ++
      checkGroups (feed (hrpChecksum hrp hrp) (ver :: groups))
    ).map char

/- The groups of a program. -/
def groupsOf (program : List UInt8) : List UInt8 :=
  groupsFrom program.length 0 0 program

/- A witness program with its version. -/
def programData (ver : UInt8) (program : List UInt8) :
    List UInt8 :=
  versionOp ver :: UInt8.ofNat program.length :: program

/- The human readable parts that `BRBech32Encode` takes. -/
def IsHrp (hrp : List UInt8) : Prop :=
  ∀ byte ∈ hrp, 33 ≤ byte ∧ byte ≤ 126 ∧ isUpper byte = false

theorem versionOp_spec
    {ver : UInt8}
    (hVersion : ver ≤ 16) :
    ¬ (OP_0 < versionOp ver ∧ versionOp ver < OP_1) ∧
      (if OP_1 ≤ versionOp ver then
        versionOp ver + 1 - OP_1 else 0) = ver := by
  have hAll :
      ∀ n ≤ 16,
        ¬ (OP_0 < versionOp (UInt8.ofNat n) ∧
            versionOp (UInt8.ofNat n) < OP_1) ∧
          (if OP_1 ≤ versionOp (UInt8.ofNat n) then
            versionOp (UInt8.ofNat n) + 1 - OP_1 else 0) =
            UInt8.ofNat n := by
    decide +kernel
  have hNat := UInt8.le_iff_toNat_le.mp hVersion
  have hVer := hAll ver.toNat hNat
  rwa [UInt8.ofNat_toNat] at hVer

theorem encode_programData
    {hrp program : List UInt8}
    {ver : UInt8}
    (hHrp : IsHrp hrp)
    (hVersion : ver ≤ 16)
    (hShort : 2 ≤ program.length)
    (hLong : program.length ≤ 40)
    (hRoom : hrp.length + 8 + program.length < 91) :
    encode hrp (programData ver program) =
      some (text hrp ver (groupsOf program)) := by
  rcases versionOp_spec hVersion with ⟨hOp, hVer⟩
  have hLen :
      (UInt8.ofNat program.length).toNat = program.length := by
    rw [UInt8.toNat_ofNat']
    omega
  have hProgram :
      (List.range program.length).map
          (fun j => (programData ver program).getD (2 + j) 0) =
        program := by
    apply List.ext_getElem
    · simp
    · intro j hJ hJ'
      simp [programData, Nat.add_comm 2 j, List.getD,
        List.getElem?_eq_getElem hJ']
  have hChars :
      hrp.length ≤ 84 ∧
        (hrp.all fun byte =>
          33 ≤ byte && byte ≤ 126 && !isUpper byte) = true := by
    refine ⟨by omega, List.all_eq_true.mpr ?_⟩
    intro byte hByte
    rcases hHrp byte hByte with ⟨hLow, hHigh, hCase⟩
    simp [hLow, hHigh, hCase]
  have hZero :
      (programData ver program).getD 0 0 = versionOp ver := rfl
  have hOne :
      (programData ver program).getD 1 0 =
        UInt8.ofNat program.length := rfl
  have hLimits :
      ¬ (16 < ver ∨ program.length < 2 ∨
        40 < program.length ∨
        91 ≤ hrp.length + 1 + 1 + program.length + 6) := by
    rintro (hBad | hBad | hBad | hBad)
    · exact absurd hVersion (UInt8.not_le.mpr hBad)
    · omega
    · omega
    · omega
  simp only [encode, hZero, hOne, hLen, hVer, hProgram]
  rw [guard_pos hChars, guard_pos hOp, guard_pos hLimits]
  rfl

/- No text is longer than the prefixes of the networks allow. -/
theorem length_encode_le
    {network : Network}
    {data addr : List UInt8}
    (hEncode :
      encode network.bech32Prefix data = some addr) :
    addr.length ≤ 74 := by
  simp only [encode, Option.bind_eq_bind,
    Option.bind_eq_some_iff] at hEncode
  rcases hEncode with ⟨_, -, _, -, _, hLimits, hResult⟩
  have hLimits := of_guard hLimits
  have hPrefix : network.bech32Prefix.length = 2 := by
    cases network <;> decide
  cases hResult
  have hCount :
      ∀ program : List UInt8,
        (groupsFrom program.length 0 0 program).length =
          (8 * program.length + 4) / 5 := by
    intro program
    have hSum :=
      @length_groupsFrom program.length 0 0 program (by simp)
    omega
  have hGroups :=
    hCount ((List.range (data.getD 1 0).toNat).map fun j =>
      data.getD (2 + j) 0)
  rw [List.length_map, List.length_range] at hGroups
  simp only [List.length_append, List.length_cons,
    List.length_map, length_checkGroups, hPrefix, hGroups]
  omega

------------------------------------------------------------
-- Regrouping Back and Forth
------------------------------------------------------------

theorem length_groupsOf
    (program : List UInt8) :
    (groupsOf program).length =
      (8 * program.length + 4) / 5 := by
  have hSum :=
    @length_groupsFrom program.length 0 0 program (by simp)
  rw [groupsOf]
  omega

theorem lt_of_mem_groupsOf
    (program : List UInt8) :
    ∀ group ∈ groupsOf program, group.toNat < 32 :=
  lt_of_mem_groupsFrom

theorem bit_groupsOf
    (program : List UInt8)
    (k : Nat) :
    bit 5 (groupsOf program) k = bit 8 program k := by
  rw [groupsOf, bit_groupsFrom (by simp), bit_cons (by decide),
    if_neg (by omega)]
  congr 1
  omega

theorem bit_programOf
    {groups : List UInt8}
    (hRoom : 5 * groups.length ≤ 8 * 52)
    (k : Nat) :
    bit 8 (programOf groups) k =
      (decide (k < 8 * (groups.length * 5 / 8)) &&
        bit 5 groups k) := by
  rw [programOf, bit_take (by decide),
    bit_putGroups (by simpa using hRoom),
    bit_replicate_zero, Bool.false_or,
    decide_eq_true (by omega : 5 * 0 ≤ k), Bool.true_and,
    Nat.mul_zero, Nat.sub_zero]

theorem length_programOf
    {groups : List UInt8}
    (hRoom : 5 * groups.length ≤ 8 * 52) :
    (programOf groups).length = groups.length * 5 / 8 := by
  rw [programOf, List.length_take, length_putGroups,
    List.length_replicate]
  omega

/- The groups of a program hold just the program. -/
theorem programOf_groupsOf
    {program : List UInt8}
    (hLong : program.length ≤ 40) :
    programOf (groupsOf program) = program := by
  have hGroups := length_groupsOf program
  have hLength :
      (programOf (groupsOf program)).length =
        program.length := by
    rw [length_programOf (by omega)]
    omega
  have hByte :
      ∀ bytes : List UInt8, ∀ byte ∈ bytes,
        byte.toNat < 2 ^ 8 :=
    fun _ byte _ => byte.toNat_lt
  apply eq_of_bits hLength (hByte _) (hByte _)
  intro k
  rw [bit_programOf (by omega), bit_groupsOf]
  by_cases hIn : k < 8 * ((groupsOf program).length * 5 / 8)
  · rw [decide_eq_true hIn, Bool.true_and]
  · rw [decide_eq_false hIn, Bool.false_and,
      bit_of_length_le (by decide)]
    omega

/- The last bits of some groups fill no byte. -/
def ZeroPadding (groups : List UInt8) : Prop :=
  5 * groups.length % 8 ≤ 4 ∧
    (groups.getLastD 0).toNat %
      2 ^ (5 * groups.length % 8) = 0

instance (groups : List UInt8) : Decidable (ZeroPadding groups) :=
  inferInstanceAs (Decidable (_ ∧ _))

theorem bit_last
    {groups : List UInt8}
    {b : Nat}
    (hNe : groups ≠ [])
    (hB : b < 5) :
    bit 5 groups (5 * groups.length - 1 - b) =
      (groups.getLastD 0).toNat.testBit b := by
  have hLength := List.length_pos_iff.mpr hNe
  have hDiv :
      (5 * groups.length - 1 - b) / 5 = groups.length - 1 := by
    omega
  have hMod :
      5 - 1 - (5 * groups.length - 1 - b) % 5 = b := by
    omega
  rw [bit, hDiv, hMod, List.getLastD_eq_getLast?,
    List.getLast?_eq_getElem?]
  rfl

theorem mod_two_pow_eq_zero_iff
    (number width : Nat) :
    number % 2 ^ width = 0 ↔
      ∀ b < width, number.testBit b = false := by
  constructor
  · intro hZero b hB
    have hBit := Nat.testBit_mod_two_pow number width b
    rw [hZero, decide_eq_true hB, Bool.true_and] at hBit
    simpa using hBit.symm
  · intro hBits
    apply Nat.eq_of_testBit_eq
    intro b
    rw [Nat.testBit_mod_two_pow, Nat.zero_testBit]
    by_cases hB : b < width
    · rw [hBits b hB, Bool.and_false]
    · rw [decide_eq_false hB, Bool.false_and]

/-
  The groups that a program is read from come back if the
  bits that fill no byte are at most four, and zero.
-/
theorem groupsOf_programOf_iff
    {groups : List UInt8}
    (hNe : groups ≠ [])
    (hRoom : 5 * groups.length ≤ 8 * 52)
    (hGroups : ∀ group ∈ groups, group.toNat < 32) :
    groupsOf (programOf groups) = groups ↔
      ZeroPadding groups := by
  have hProgram := length_programOf hRoom
  have hLength := length_groupsOf (programOf groups)
  have hPositive := List.length_pos_iff.mpr hNe
  rw [hProgram, Nat.mul_comm groups.length] at hLength
  constructor
  · intro hEq
    rw [hEq] at hLength
    have hPadding : 5 * groups.length % 8 ≤ 4 := by omega
    refine ⟨hPadding, ?_⟩
    rw [mod_two_pow_eq_zero_iff]
    intro b hB
    rw [← bit_last hNe (by omega)]
    conv_lhs => rw [← hEq]
    rw [bit_groupsOf, hEq, bit_of_length_le (by decide)]
    rw [hProgram, Nat.mul_comm groups.length]
    omega
  · rintro ⟨hPadding, hZero⟩
    rw [mod_two_pow_eq_zero_iff] at hZero
    have hWidth : ∀ group ∈ groups, group.toNat < 2 ^ 5 :=
      hGroups
    refine eq_of_bits (by omega) lt_of_mem_groupsFrom
      hWidth ?_
    intro k
    rw [bit_groupsOf, bit_programOf hRoom,
      Nat.mul_comm groups.length]
    by_cases hIn : k < 8 * (5 * groups.length / 8)
    · rw [decide_eq_true hIn, Bool.true_and]
    · rw [decide_eq_false hIn, Bool.false_and]
      by_cases hEnd : k < 5 * groups.length
      · have hIndex :
            k = 5 * groups.length - 1 -
              (5 * groups.length - 1 - k) := by
          omega
        rw [hIndex, bit_last hNe (by omega),
          hZero _ (by omega)]
      · rw [bit_of_length_le (by decide) (by omega)]

------------------------------------------------------------
-- Letter Case
------------------------------------------------------------

theorem toLower_visible
    {byte : UInt8}
    (hByte : 33 ≤ byte ∧ byte ≤ 126) :
    33 ≤ toLower byte ∧ toLower byte ≤ 126 ∧
      isUpper (toLower byte) = false := by
  have hAll :
      ∀ n < 256,
        33 ≤ UInt8.ofNat n ∧ UInt8.ofNat n ≤ 126 →
          33 ≤ toLower (UInt8.ofNat n) ∧
            toLower (UInt8.ofNat n) ≤ 126 ∧
            isUpper (toLower (UInt8.ofNat n)) = false := by
    decide +kernel
  have hEntry := hAll byte.toNat byte.toNat_lt
  rw [UInt8.ofNat_toNat] at hEntry
  exact hEntry hByte

theorem isHrp_toLower
    {front : List UInt8}
    (hVisible : ∀ byte ∈ front, 33 ≤ byte ∧ byte ≤ 126) :
    IsHrp (front.map toLower) := by
  intro byte hByte
  rcases List.mem_map.mp hByte with ⟨other, hOther, rfl⟩
  exact toLower_visible (hVisible other hOther)

theorem map_toLower_of_isHrp
    {hrp : List UInt8}
    (hHrp : IsHrp hrp) :
    hrp.map toLower = hrp := by
  conv_rhs => rw [← List.map_id hrp]
  apply List.map_congr_left
  intro byte hByte
  rw [toLower, if_neg (by simp [(hHrp byte hByte).2.2])]
  rfl

/- The low bits of a character do not depend on its case. -/
theorem hrpChecksum_toLower
    (lower front : List UInt8) :
    hrpChecksum lower (front.map toLower) =
      hrpChecksum lower front := by
  have hAll :
      ∀ n < 256,
        toLower (UInt8.ofNat n) &&& (0x1f : UInt8) =
          UInt8.ofNat n &&& (0x1f : UInt8) := by
    decide +kernel
  have hMap :
      (front.map toLower).map
          (fun byte => byte &&& (0x1f : UInt8)) =
        front.map fun byte => byte &&& (0x1f : UInt8) := by
    rw [List.map_map]
    apply List.map_congr_left
    intro byte _
    have hEntry := hAll byte.toNat byte.toNat_lt
    rwa [UInt8.ofNat_toNat] at hEntry
  simp only [hrpChecksum, hMap]

------------------------------------------------------------
-- Decoding What Was Encoded
------------------------------------------------------------

theorem parses_text
    {hrp groups : List UInt8}
    {ver : UInt8}
    (hHrp : IsHrp hrp)
    (hNe : hrp ≠ [])
    (hVersion : ver ≤ 16)
    (hGroups : ∀ group ∈ groups, group.toNat < 32)
    (hRoom : hrp.length + 8 + groups.length ≤ 90)
    (hProgram :
      2 ≤ groups.length * 5 / 8 ∧
        groups.length * 5 / 8 ≤ 40) :
    Parses (text hrp ver groups) hrp
      ((ver :: groups ++
        checkGroups
          (feed (hrpChecksum hrp hrp) (ver :: groups))
        ).map char)
      ver groups
      (checkGroups
        (feed (hrpChecksum hrp hrp) (ver :: groups))) := by
  set check :=
    checkGroups (feed (hrpChecksum hrp hrp) (ver :: groups))
    with hCheck
  have hVer : ver.toNat < 32 := by
    have hNat := UInt8.le_iff_toNat_le.mp hVersion
    exact lt_of_le_of_lt hNat (by decide)
  have hAll :
      ∀ group ∈ ver :: groups ++ check, group.toNat < 32 := by
    intro group hGroup
    rcases List.mem_append.mp hGroup with hFront | hLast
    · rcases List.mem_cons.mp hFront with rfl | hRest
      · exact hVer
      · exact hGroups group hRest
    · exact lt_of_mem_checkGroups group hLast
  have hBytes :
      ∀ byte ∈ text hrp ver groups,
        33 ≤ byte ∧ byte ≤ 126 ∧ isUpper byte = false := by
    intro byte hByte
    rcases List.mem_append.mp hByte with hFront | hTail
    · exact hHrp byte hFront
    · rcases List.mem_cons.mp hTail with rfl | hTail
      · decide
      · rcases List.mem_map.mp hTail with
          ⟨group, hGroup, rfl⟩
        rcases char_visible (hAll group hGroup) with
          ⟨hLow, hHigh, hCase, -⟩
        exact ⟨hLow, hHigh, hCase⟩
  constructor
  · rfl
  · exact groups_map_char hAll
  · exact length_checkGroups _
  · intro byte hByte
    rcases hBytes byte hByte with ⟨hLow, hHigh, -⟩
    exact ⟨hLow, hHigh⟩
  · rintro ⟨hUpper, -⟩
    rcases List.any_eq_true.mp hUpper with
      ⟨byte, hByte, hCase⟩
    rw [(hBytes byte hByte).2.2] at hCase
    cases hCase
  · simp [text]
    omega
  · exact hNe
  · rw [map_toLower_of_isHrp hHrp, feed_append]
    exact feed_checkGroups _
  · exact hVersion
  · exact hProgram

theorem isHrp_bech32Prefix
    (network : Network) :
    IsHrp network.bech32Prefix := by
  cases network <;> unfold IsHrp <;> decide +kernel

theorem dataOf_eq
    {groups : List UInt8}
    (hRoom : 5 * groups.length ≤ 8 * 52)
    (ver : UInt8) :
    dataOf ver groups =
      programData ver (programOf groups) := by
  rw [dataOf, programData, length_programOf hRoom]

/- The text of a program on a network is accepted. -/
theorem exists_parses
    (network : Network)
    {ver : UInt8}
    {program : List UInt8}
    (hVersion : ver ≤ 16)
    (hShort : 2 ≤ program.length)
    (hLong : program.length ≤ 40) :
    ∃ tail check,
      Parses
        (text network.bech32Prefix ver (groupsOf program))
        network.bech32Prefix tail ver (groupsOf program)
        check := by
  have hPrefix : network.bech32Prefix.length = 2 := by
    cases network <;> decide
  have hGroups := length_groupsOf program
  have hNe : network.bech32Prefix ≠ [] := by
    apply List.ne_nil_of_length_pos
    omega
  exact ⟨_, _, parses_text (isHrp_bech32Prefix network) hNe
    hVersion (lt_of_mem_groupsOf program) (by omega)
    (by omega)⟩

theorem encode_program
    (network : Network)
    {ver : UInt8}
    {program : List UInt8}
    (hVersion : ver ≤ 16)
    (hShort : 2 ≤ program.length)
    (hLong : program.length ≤ 40) :
    encode network.bech32Prefix (programData ver program) =
      some (text network.bech32Prefix ver
        (groupsOf program)) := by
  have hPrefix : network.bech32Prefix.length = 2 := by
    cases network <;> decide
  exact encode_programData (isHrp_bech32Prefix network)
    hVersion hShort hLong (by omega)

/- What is encoded for a network is decoded to the same. -/
theorem decode_text
    (network : Network)
    {ver : UInt8}
    {program : List UInt8}
    (hVersion : ver ≤ 16)
    (hShort : 2 ≤ program.length)
    (hLong : program.length ≤ 40) :
    decode
        (text network.bech32Prefix ver (groupsOf program)) =
      some (network.bech32Prefix, programData ver program) := by
  rcases exists_parses network hVersion hShort hLong with
    ⟨tail, check, hParses⟩
  have hGroups := length_groupsOf program
  rw [decode_of_parses hParses,
    map_toLower_of_isHrp (isHrp_bech32Prefix network),
    dataOf_eq (by omega), programOf_groupsOf hLong]

------------------------------------------------------------
-- Encoding What Was Decoded
------------------------------------------------------------

namespace Parses

variable {addr front tail groups check : List UInt8}
variable {ver : UInt8}

theorem length_eq
    (hParses : Parses addr front tail ver groups check) :
    addr.length = front.length + groups.length + 8 := by
  have hTail := hParses.length_tail
  rw [hParses.split, List.length_append, List.length_cons]
  omega

/- The lower-case form of an address, by its parts. -/
theorem map_toLower
    (hParses : Parses addr front tail ver groups check) :
    addr.map toLower =
      front.map toLower ++ cChar '1' ::
        (ver :: groups ++ check).map char := by
  rw [map_char_of_groups hParses.digits, hParses.split,
    List.map_append, List.map_cons]
  rfl

theorem encode_eq
    (hParses : Parses addr front tail ver groups check) :
    encode (front.map toLower) (dataOf ver groups) =
      some (text (front.map toLower) ver
        (groupsOf (programOf groups))) := by
  have hLength := hParses.length_eq
  have hLimit := hParses.length_le
  have hFront := List.length_pos_iff.mpr hParses.nonempty
  have hRoom : 5 * groups.length ≤ 8 * 52 := by omega
  have hProgram := hParses.programLength
  have hSize := length_programOf hRoom
  rw [dataOf_eq hRoom]
  apply encode_programData
  · apply isHrp_toLower
    intro byte hByte
    apply hParses.visible
    rw [hParses.split]
    exact List.mem_append_left _ hByte
  · exact hParses.version
  · omega
  · omega
  · rw [List.length_map]
    omega

/- It comes back just if the padding is as it should be. -/
theorem encode_eq_toLower_iff
    (hParses : Parses addr front tail ver groups check) :
    encode (front.map toLower) (dataOf ver groups) =
        some (addr.map toLower) ↔
      ZeroPadding groups := by
  have hLength := hParses.length_eq
  have hLimit := hParses.length_le
  have hFront := List.length_pos_iff.mpr hParses.nonempty
  have hRoom : 5 * groups.length ≤ 8 * 52 := by omega
  have hProgram := hParses.programLength
  have hNe : groups ≠ [] := by
    apply List.ne_nil_of_length_pos
    omega
  have hLt := hParses.groups_lt
  have hGroups : ∀ group ∈ groups, group.toNat < 32 :=
    fun group hGroup => hLt group (by simp [hGroup])
  rw [hParses.encode_eq, hParses.map_toLower, text,
    ← groupsOf_programOf_iff hNe hRoom hGroups,
    Option.some_inj]
  constructor
  · intro hEq
    have hChars := List.append_cancel_left hEq
    rw [List.cons_inj_right] at hChars
    have hAll := map_char_inj (by
      intro group hGroup
      rcases List.mem_append.mp hGroup with hHere | hCheck
      · rcases List.mem_cons.mp hHere with rfl | hRest
        · exact hLt _ (by simp)
        · exact lt_of_mem_groupsOf _ group hRest
      · exact lt_of_mem_checkGroups group hCheck) hLt hChars
    have hSix : (checkGroups
        (feed (hrpChecksum (front.map toLower)
          (front.map toLower))
          (ver :: groupsOf (programOf groups)))).length =
        check.length := by
      rw [length_checkGroups, hParses.six]
    have hParts := (List.append_inj' hAll hSix).1
    exact (List.cons.inj hParts).2
  · intro hEq
    have hSum := hParses.sum
    rw [feed_append] at hSum
    have hCheck :=
      eq_checkGroups hParses.six
        (fun group hGroup => hLt group (by simp [hGroup]))
        hSum
    rw [hEq, hrpChecksum_toLower, ← hCheck]

end Parses

------------------------------------------------------------
-- The Padding of an Address
------------------------------------------------------------

/- The groups between the version and the checksum. -/
def dataGroups (addr : List UInt8) : List UInt8 :=
  let sep := findSep addr addr.length
  let groups := (addr.drop (sep + 2)).filterMap groupOf
  groups.take (groups.length - 6)

/-
  Whether at most four bits of an address are padding, and
  all of them zero.
-/
def PaddingIsZero (addr : List UInt8) : Prop :=
  ZeroPadding (dataGroups addr)

instance (addr : List UInt8) : Decidable (PaddingIsZero addr) :=
  inferInstanceAs (Decidable (ZeroPadding _))

/- Whether an address has letters of both cases. -/
def MixedCase (addr : List UInt8) : Prop :=
  addr.any isUpper ∧ addr.any isLower

/- Whether the checksum of an address is 1. -/
def ChecksumHolds (addr : List UInt8) : Prop :=
  let sep := findSep addr addr.length
  let hrp := addr.take sep
  feed (hrpChecksum (hrp.map toLower) hrp)
    ((addr.drop (sep + 1)).filterMap groupOf) = 1

theorem filterMap_eq_of_mapM
    {str groups : List UInt8}
    (hGroups : str.mapM groupOf = some groups) :
    str.filterMap groupOf = groups := by
  have hAll := MapM.eq_some_iff.mp hGroups
  clear hGroups
  induction hAll with
  | nil => rfl
  | cons hFound _ ih =>
      rw [List.filterMap_cons_some hFound, ih]

namespace Parses

variable {addr front tail groups check : List UInt8}
variable {ver : UInt8}

theorem drop_sep
    (hParses : Parses addr front tail ver groups check) :
    addr.drop (findSep addr addr.length + 1) = tail := by
  rw [hParses.findSep_eq]
  conv_lhs => rw [hParses.split]
  rw [← List.drop_drop, List.drop_left' rfl]
  rfl

theorem dataGroups_eq
    (hParses : Parses addr front tail ver groups check) :
    dataGroups addr = groups := by
  have hTail := filterMap_eq_of_mapM hParses.digits
  have hDrop :
      addr.drop (findSep addr addr.length + 2) =
        tail.drop 1 := by
    rw [← hParses.drop_sep, List.drop_drop]
  have hRest :
      (tail.drop 1).filterMap groupOf = groups ++ check := by
    rcases hBytes : tail with _ | ⟨byte, str⟩
    · have hLength := hParses.length_tail
      rw [hBytes] at hLength
      simp at hLength
    · have hDigits := hParses.digits
      rw [hBytes, List.cons_append, MapM.eq_some_iff,
        List.forall₂_cons] at hDigits
      exact filterMap_eq_of_mapM
        (MapM.eq_some_iff.mpr hDigits.2)
  simp only [dataGroups, hDrop, hRest, List.length_append,
    hParses.six, Nat.add_sub_cancel]
  exact List.take_left' rfl

theorem checksumHolds
    (hParses : Parses addr front tail ver groups check) :
    ChecksumHolds addr := by
  have hTake :
      addr.take (findSep addr addr.length) = front := by
    rw [hParses.findSep_eq]
    conv_lhs => rw [hParses.split]
    exact List.take_left' rfl
  simp only [ChecksumHolds, hParses.drop_sep, hTake,
    filterMap_eq_of_mapM hParses.digits]
  exact hParses.sum

end Parses

/- What is encoded for a network is in lower case. -/
theorem map_toLower_text
    (network : Network)
    {ver : UInt8}
    {program : List UInt8}
    (hVersion : ver ≤ 16)
    (hShort : 2 ≤ program.length)
    (hLong : program.length ≤ 40) :
    (text network.bech32Prefix ver (groupsOf program)).map
        toLower =
      text network.bech32Prefix ver (groupsOf program) := by
  rcases exists_parses network hVersion hShort hLong with
    ⟨tail, check, hParses⟩
  have hCheck :=
    eq_checkGroups hParses.six
      (fun group hGroup =>
        hParses.groups_lt group (by simp [hGroup]))
      (by rw [← feed_append]; exact hParses.sum)
  rw [hParses.map_toLower, hCheck,
    map_toLower_of_isHrp (isHrp_bech32Prefix network)]
  rfl

theorem encode_eq_toLower_iff
    {addr hrp data : List UInt8}
    (hDecode : decode addr = some (hrp, data)) :
    encode hrp data = some (addr.map toLower) ↔
      PaddingIsZero addr := by
  rcases parses_of_decode hDecode with
    ⟨front, tail, ver, groups, check, hParses, rfl, rfl⟩
  rw [hParses.encode_eq_toLower_iff, PaddingIsZero,
    hParses.dataGroups_eq]

------------------------------------------------------------
-- Exactness
------------------------------------------------------------

/-
  That decoding inverts encoding, and that encoding gives back
  every address that is accepted in its lower-case form.
-/
structure Exact : Prop where
  decode_encode : ∀ network ver program,
    ver ≤ 16 → 2 ≤ program.length → program.length ≤ 40 →
      ∃ addr,
        encode (Network.bech32Prefix network)
            (programData ver program) = some addr ∧
          decode addr =
            some (Network.bech32Prefix network,
              programData ver program)
  encode_decode : ∀ addr hrp data,
    decode addr = some (hrp, data) →
      encode hrp data = some (addr.map toLower)

/-
  Decoding inverts encoding.  An address that is accepted has
  one letter case and its checksum, and comes back just if its
  padding is at most four zero bits.
-/
theorem exact_of_paddingIsZero
    (network : Network) :
    (∀ ver program,
      ver ≤ 16 → 2 ≤ program.length → program.length ≤ 40 →
        ∃ addr,
          encode network.bech32Prefix
              (programData ver program) = some addr ∧
            decode addr =
              some (network.bech32Prefix,
                programData ver program)) ∧
    (∀ addr hrp data,
      decode addr = some (hrp, data) →
        (encode hrp data = some (addr.map toLower) ↔
          PaddingIsZero addr) ∧
        ¬ MixedCase addr ∧ ChecksumHolds addr) := by
  constructor
  · intro ver program hVersion hShort hLong
    exact ⟨_, encode_program network hVersion hShort hLong,
      decode_text network hVersion hShort hLong⟩
  · intro addr hrp data hDecode
    rcases parses_of_decode hDecode with
      ⟨front, tail, ver, groups, check, hParses, -, -⟩
    exact ⟨encode_eq_toLower_iff hDecode, hParses.oneCase,
      hParses.checksumHolds⟩

theorem exact_of_paddingIsZero_sample :
    encode (cString "bc")
        (programData 0
          [0x75, 0x1e, 0x76, 0xe8, 0x19, 0x91, 0x96, 0xd4,
            0x54, 0x94, 0x1c, 0x45, 0xd1, 0xb3, 0xa3, 0x23,
            0xf1, 0x43, 0x3b, 0xd6]) =
      some ((cString
        "BC1QW508D6QEJXTDG4Y5R3ZARVARY0C5XW7KV8F3T4").map
          toLower) :=
  ((exact_of_paddingIsZero Network.main).2
    (cString "BC1QW508D6QEJXTDG4Y5R3ZARVARY0C5XW7KV8F3T4")
    _ _ (by decide +kernel)).1.mpr (by decide +kernel)

/- An address with eight bits of padding is accepted. -/
theorem not_exact_of_padding : ¬ Exact := by
  intro hExact
  have hDecode :
      decode (cString
          "bc1zw508d6qejxtdg4y5r3zarvaryvqyzf3du") =
        some (cString "bc",
          programData 2
            [0x75, 0x1e, 0x76, 0xe8, 0x19, 0x91, 0x96, 0xd4,
              0x54, 0x94, 0x1c, 0x45, 0xd1, 0xb3, 0xa3,
              0x23]) := by
    decide +kernel
  exact absurd (hExact.encode_decode _ _ _ hDecode)
    (by decide +kernel)

end BRBech32

end PlusWallet
